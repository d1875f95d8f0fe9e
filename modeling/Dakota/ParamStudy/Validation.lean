import Dakota.Lib.Outcome
import Dakota.ParamStudy.Study

/-!
# Validation of a parameter study

What the checks of set indices say about the runs of `vectorLoop` and `centeredLoop`.

* `SetDim`: a set variable without its values: the position of the initial value, if it is in the
  set, the size and the step. `checkSets_eq_ok`: the checks look at one end for each of them.
* `vectorLoop_meets`, `centeredLoop_meets`: a loop all of whose indices exist does not abort.
* `studyPredicts_iff`: when a check accepts just the studies all of whose indices exist.
-/

namespace Dakota

open CInt Outcome

/-- What the checks use of a set variable. -/
structure SetDim where
  index0 : Option ℕ
  size : ℕ
  step : ℤ

/-- The index `k` steps from the initial one exists. -/
def SetDim.Exists (d : SetDim) (k : ℤ) : Prop :=
  ∃ i : ℕ, d.index0 = some i ∧ 0 ≤ i + d.step * k ∧ i + d.step * k < d.size

/-- The position of the initial value, or `-1` as `_NPOS` is converted. -/
def SetDim.start (d : SetDim) : ℤ :=
  match d.index0 with
  | some i => i
  | none => -1

/-- The end that a check looks at is in the set. -/
def SetDim.EndInSet (d : SetDim) (n : ℤ) : Prop :=
  0 ≤ d.start + d.step * n ∧ d.start + d.step * n < d.size

instance (d : SetDim) (n : ℤ) : Decidable (d.EndInSet n) := inferInstanceAs (Decidable (_ ∧ _))

/-- A position is one of the set, and sizes are `int`s. -/
structure SetDim.Fits (d : SetDim) : Prop where
  index0_lt : ∀ i ∈ d.index0, i < d.size
  size_int : d.size < 2 ^ 31

/-! ## One set variable -/

section

variable {d : SetDim} {n k : ℤ}

theorem SetDim.Exists.endInSet (h : d.Exists n) : d.EndInSet n := by
  obtain ⟨i, hi, hle, hlt⟩ := h
  unfold EndInSet start
  rw [hi]
  exact ⟨hle, hlt⟩

theorem SetDim.EndInSet.exists (h : d.EndInSet n) (hne : d.index0 ≠ none) : d.Exists n := by
  obtain ⟨i, hi⟩ := Option.ne_none_iff_exists'.mp hne
  unfold EndInSet start at h
  rw [hi] at h
  exact ⟨i, hi, h⟩

/-- Where two indices exist, those between them do. -/
theorem SetDim.Exists.between {a b : ℤ} (ha : d.Exists a) (hb : d.Exists b) (hak : a ≤ k)
    (hkb : k ≤ b) : d.Exists k := by
  obtain ⟨i, hi, ha⟩ := ha
  obtain ⟨j, hj, hb⟩ := hb
  cases hi.symm.trans hj
  refine ⟨i, hi, ?_⟩
  rcases le_total 0 d.step with hs | hs
  · have h₁ : d.step * a ≤ d.step * k := mul_le_mul_of_nonneg_left hak hs
    have h₂ : d.step * k ≤ d.step * b := mul_le_mul_of_nonneg_left hkb hs
    omega
  · have h₁ : d.step * k ≤ d.step * a := mul_le_mul_of_nonpos_left hak hs
    have h₂ : d.step * b ≤ d.step * k := mul_le_mul_of_nonpos_left hkb hs
    omega

theorem SetDim.Fits.exists_zero (hd : d.Fits) (hne : d.index0 ≠ none) : d.Exists 0 := by
  obtain ⟨i, hi⟩ := Option.ne_none_iff_exists'.mp hne
  have hlt := hd.index0_lt i hi
  exact ⟨i, hi, by omega, by omega⟩

/-- Two ends on both sides of a missing initial value are not both in the set. -/
theorem SetDim.index0_ne_none (h : d.EndInSet n) (hneg : d.EndInSet (-n)) : d.index0 ≠ none := by
  intro hnone
  simp only [EndInSet, start, hnone] at h hneg
  have hmul : d.step * -n = -(d.step * n) := mul_neg _ _
  omega

/-- An index that exists is reached without overflow. -/
theorem SetDim.Fits.isInt_mul (hd : d.Fits) (h : d.Exists k) : IsInt (d.step * k) := by
  obtain ⟨i, hi, hle, hlt⟩ := h
  have hi := hd.index0_lt i hi
  have hsize := hd.size_int
  unfold IsInt
  omega

end

section

variable {α : Type} [DecidableEq α] {var : SetVar α} {n k : ℤ} {err err' : Bool}

def SetVar.dim (var : SetVar α) : SetDim :=
  ⟨var.values.idxOf? var.initial, var.values.length, var.step⟩

theorem SetVar.dim_fits (var : SetVar α) : var.dim.Fits where
  index0_lt _ hi := (List.idxOf?_eq_some_iff.mp hi).choose
  size_int := var.size_int

theorem narrow_setValueToIndex {x : ℤ} :
    narrow (setValueToIndex var.initial var.values + x) = narrow (var.dim.start + x) := by
  unfold setValueToIndex SetDim.start SetVar.dim
  cases var.values.idxOf? var.initial with
  | some i => rfl
  | none => exact narrow_add_pow x

theorem SetVar.start_bounds (var : SetVar α) : -1 ≤ var.dim.start ∧ var.dim.start < 2 ^ 31 := by
  have hsize := var.size_int
  unfold SetDim.start
  cases h : var.dim.index0 with
  | none => exact ⟨le_refl _, by norm_num⟩
  | some i =>
    have hi : i < var.values.length := var.dim_fits.index0_lt i h
    show -1 ≤ (i : ℤ) ∧ (i : ℤ) < 2 ^ 31
    omega

/-- The check of one variable, if it is not undefined, is that of its end. -/
theorem checkSet_eq_ok : checkSet var n err = .ok err' ↔
    IsInt (var.dim.step * n) ∧ err' = (err || !decide (var.dim.EndInSet n)) := by
  unfold checkSet
  rw [bind_eq_ok]
  simp only [checkedInt_eq_ok]
  have hend (hp : IsInt (var.step * n)) :
      (narrow (setValueToIndex var.initial var.values + var.step * n) < 0 ∨
        narrow (setValueToIndex var.initial var.values + var.step * n) ≥ var.values.length) ↔
      ¬ var.dim.EndInSet n := by
    have hsize : (var.values.length : ℤ) < 2 ^ 31 := by exact_mod_cast var.size_int
    have hmem := narrow_mem_iff var.start_bounds.1 var.start_bounds.2 hp hsize
    rw [narrow_setValueToIndex]
    show _ ↔ ¬ (0 ≤ var.dim.start + var.step * n ∧ var.dim.start + var.step * n < var.values.length)
    rw [← hmem]
    omega
  constructor
  · rintro ⟨_, ⟨hp, rfl⟩, h⟩
    refine ⟨hp, ?_⟩
    cases h
    simp only [hend hp, decide_not]
  · rintro ⟨hp, rfl⟩
    refine ⟨_, ⟨hp, rfl⟩, ?_⟩
    simp only [hend hp, decide_not]
    rfl

/-- A step to an index that exists returns. -/
theorem exists_setStep_eq_ok (h : var.dim.Exists k) : ∃ value, setStep var k = .ok value := by
  have hp : IsInt (k * var.step) := by
    rw [mul_comm]
    exact var.dim_fits.isInt_mul h
  obtain ⟨i, hi, hle, hlt⟩ := h
  have hilt := var.dim_fits.index0_lt i hi
  have hsize := var.size_int
  have hindex : setValueToIndex var.initial var.values = i := by
    unfold setValueToIndex
    rw [show var.values.idxOf? var.initial = some i from hi]
  have hne : setValueToIndex var.initial var.values ≠ npos := by
    rw [hindex, npos]
    simp only [SetVar.dim] at hilt
    omega
  have hfits : IsInt (i + k * var.step) := by
    simp only [SetVar.dim] at hle hlt
    rw [mul_comm]
    unfold IsInt
    omega
  have hmem : 0 ≤ narrow (i + k * var.step) ∧ narrow (i + k * var.step) < var.values.length := by
    rw [narrow_of_isInt hfits, mul_comm]
    exact ⟨hle, hlt⟩
  unfold setStep
  rw [if_neg hne, checkedInt_of_isInt hp]
  simp only [hindex, Except.bind, bind, dif_pos hmem]
  exact ⟨_, rfl⟩

end

/-! ## All set variables -/

section

variable {ε β : Type} {f : Bool → β → Except ε Bool} {defined : β → Prop} {bad : β → Bool}

variable (defined bad) in
/-- A loop that collects errors. -/
theorem foldlM_or_eq_ok {l : List β} {err err' : Bool}
    (h : ∀ b ∈ l, ∀ err err', f err b = .ok err' ↔ defined b ∧ err' = (err || bad b)) :
    l.foldlM f err = .ok err' ↔ (∀ b ∈ l, defined b) ∧ err' = (err || l.any bad) := by
  induction l generalizing err with
  | nil => simp [pure, Except.pure, eq_comm]
  | cons b l ih =>
    rw [List.foldlM_cons, bind_eq_ok]
    simp only [h b List.mem_cons_self]
    have ih' {err : Bool} : l.foldlM f err = .ok err' ↔
        (∀ b ∈ l, defined b) ∧ err' = (err || l.any bad) :=
      ih fun b' hb' => h b' (List.mem_cons_of_mem b hb')
    simp only [ih', List.forall_mem_cons, List.any_cons, ← Bool.or_assoc]
    constructor
    · rintro ⟨_, ⟨hb, rfl⟩, hl, he⟩
      exact ⟨⟨hb, hl⟩, he⟩
    · rintro ⟨⟨hb, hl⟩, he⟩
      exact ⟨_, ⟨hb, rfl⟩, hl, he⟩

end

variable {K : Type} [DecidableEq K]

def intSetDim : DiscreteIntVar × ℤ → Option (SetDim × ℤ)
  | (.range _, _) => none
  | (.set var, n) => some (var.dim, n)

/-- The discrete int set variables, each with its number of steps. -/
def intSetDims (study : ParamStudy K) (steps : List ℤ) : List (SetDim × ℤ) :=
  (study.div.zip steps).filterMap intSetDim

def stringSetDims (study : ParamStudy K) (steps : List ℤ) : List (SetDim × ℤ) :=
  (study.dsv.zip steps).map fun var => (var.1.dim, var.2)

def realSetDims (study : ParamStudy K) (steps : List ℤ) : List (SetDim × ℤ) :=
  (study.drv.zip steps).map fun var => (var.1.dim, var.2)

def setDims (study : ParamStudy K) (steps : ByType ℤ) : List (SetDim × ℤ) :=
  intSetDims study steps.di ++ (stringSetDims study steps.ds ++ realSetDims study steps.dr)

section

variable {study : ParamStudy K} {steps : ByType ℤ} {err : Bool}

theorem setDims_fits {p : SetDim × ℤ} (h : p ∈ setDims study steps) : p.1.Fits := by
  simp only [setDims, intSetDims, stringSetDims, realSetDims, List.mem_append, List.mem_filterMap,
    List.mem_map] at h
  rcases h with ⟨⟨var, n⟩, -, hvar⟩ | ⟨var, -, rfl⟩ | ⟨var, -, rfl⟩
  · cases var with
    | range v => cases hvar
    | set v =>
      cases hvar
      exact v.dim_fits
  · exact var.1.dim_fits
  · exact var.1.dim_fits

theorem checkIntVars_eq_ok {vars : List (DiscreteIntVar × ℤ)} {err err' : Bool} :
    vars.foldlM (fun err var => checkIntVar var.1 var.2 err) err = .ok err' ↔
      (∀ p ∈ vars.filterMap intSetDim, IsInt (p.1.step * p.2)) ∧
        err' = (err || (vars.filterMap intSetDim).any fun p => !decide (p.1.EndInSet p.2)) := by
  rw [foldlM_or_eq_ok
    (fun var => ∀ p ∈ intSetDim var, IsInt (p.1.step * p.2))
    fun var => (intSetDim var).any fun p => !decide (p.1.EndInSet p.2)]
  · rw [List.any_filterMap]
    refine and_congr ⟨fun h p hp => ?_, fun h var hvar p hp => ?_⟩ Iff.rfl
    · obtain ⟨var, hvar, hp⟩ := List.mem_filterMap.mp hp
      exact h var hvar p hp
    · exact h p (List.mem_filterMap.mpr ⟨var, hvar, hp⟩)
  · rintro ⟨v, n⟩ - err err'
    cases v with
    | range v => simp [intSetDim, checkIntVar, pure, Except.pure, eq_comm]
    | set v => simp [intSetDim, checkIntVar, checkSet_eq_ok]

theorem checkSetVars_eq_ok {α : Type} [DecidableEq α] {vars : List (SetVar α × ℤ)}
    {err err' : Bool} :
    vars.foldlM (fun err var => checkSet var.1 var.2 err) err = .ok err' ↔
      (∀ p ∈ vars.map fun var => (var.1.dim, var.2), IsInt (p.1.step * p.2)) ∧
        err' = (err || (vars.map fun var => (var.1.dim, var.2)).any
          fun p => !decide (p.1.EndInSet p.2)) := by
  rw [foldlM_or_eq_ok (f := fun err (var : SetVar α × ℤ) => checkSet var.1 var.2 err) _ _
    fun var _ err err' => checkSet_eq_ok]
  rw [List.forall_mem_map, List.any_map]
  rfl

/-- The check of indices looks at the end of each set variable. -/
theorem checkSets_eq_ok : checkSets study steps = .ok err ↔
    (∀ p ∈ setDims study steps, IsInt (p.1.step * p.2)) ∧
      err = !decide (∀ p ∈ setDims study steps, p.1.EndInSet p.2) := by
  have hnot : (!decide (∀ p ∈ setDims study steps, p.1.EndInSet p.2)) =
      (setDims study steps).any fun p => !decide (p.1.EndInSet p.2) := by
    rw [Bool.eq_iff_iff]
    simp
  unfold checkSets
  simp only [bind_eq_ok, checkIntVars_eq_ok, checkSetVars_eq_ok, hnot]
  simp only [setDims, List.any_append, List.forall_mem_append, Bool.false_or]
  constructor
  · rintro ⟨_, ⟨hi, rfl⟩, _, ⟨hs, rfl⟩, hr, rfl⟩
    exact ⟨⟨hi, hs, hr⟩, Bool.or_assoc ..⟩
  · rintro ⟨⟨hi, hs, hr⟩, rfl⟩
    exact ⟨_, ⟨hi, rfl⟩, _, ⟨hs, rfl⟩, hr, (Bool.or_assoc ..).symm⟩

/-! ## Runs -/

/-- `c_steps_per_var = num_steps` and so on. -/
def uniformSteps (study : ParamStudy K) (numSteps : ℤ) : ByType ℤ :=
  ⟨.replicate study.cv.length numSteps, .replicate study.div.length numSteps,
    .replicate study.dsv.length numSteps, .replicate study.drv.length numSteps⟩

theorem mem_zip_replicate {α β : Type} {l : List α} {a : α} (ha : a ∈ l) (b : β) :
    (a, b) ∈ l.zip (List.replicate l.length b) := by
  induction l with
  | nil => cases ha
  | cons a' l ih =>
    rw [List.length_cons, List.replicate_succ, List.zip_cons_cons, List.mem_cons]
    rcases List.mem_cons.mp ha with rfl | ha
    · exact .inl rfl
    · exact .inr (ih ha)

theorem driStep_meets {var : RangeVar ℤ} {k : ℤ} :
    Meets (fun e => ¬ StudyError.IsAbort e) (fun _ => True) (driStep var k) := by
  have hchecked (x : ℤ) : Meets (fun e => ¬ StudyError.IsAbort e) (fun _ => True)
      (checkedInt StudyError.overflow x) := by
    unfold checkedInt
    split_ifs
    · trivial
    · exact not_false
  exact (hchecked _).bind fun _ _ => hchecked _

theorem setStep_meets {α : Type} [DecidableEq α] {var : SetVar α} {k : ℤ} (h : var.dim.Exists k) :
    Meets (fun e => ¬ StudyError.IsAbort e) (fun _ => True) (setStep var k) := by
  obtain ⟨value, hvalue⟩ := exists_setStep_eq_ok h
  rw [hvalue]
  trivial

/-- The step of a discrete int variable does not abort if its index exists. -/
theorem diStep_meets {var : DiscreteIntVar} {n k : ℤ}
    (h : ∀ p ∈ intSetDim (var, n), p.1.Exists k) :
    Meets (fun e => ¬ StudyError.IsAbort e) (fun _ => True) (diStep var k) := by
  cases var with
  | range v => exact driStep_meets
  | set v => exact setStep_meets (h (v.dim, n) rfl)

omit [DecidableEq K] in
theorem intSetDim_subset {var : DiscreteIntVar} {n : ℤ} {p : SetDim × ℤ} {ns : List ℤ}
    (hvar : (var, n) ∈ study.div.zip ns) (hp : p ∈ intSetDim (var, n)) : p ∈ intSetDims study ns :=
  List.mem_filterMap.mpr ⟨(var, n), hvar, hp⟩

theorem stepLoop_meets {α : Type} {step : ℤ → Except StudyError α} {n : ℤ} {w : StudyWrites α}
    (h : ∀ i, -n ≤ i → i ≤ n → Meets (fun e => ¬ StudyError.IsAbort e) (fun _ => True) (step i)) :
    Meets (fun e => ¬ StudyError.IsAbort e) (fun _ => True) (stepLoop n step w) := by
  unfold stepLoop
  have hfirst : Meets (fun e => ¬ StudyError.IsAbort e) (· = -n)
      (checkedInt StudyError.overflow (-n)) := by
    unfold checkedInt
    split_ifs
    · rfl
    · exact not_false
  have hrange : Meets (fun e => ¬ StudyError.IsAbort e) (fun range => ∀ i ∈ range, -n ≤ i ∧ i ≤ n)
      (intRange StudyError.overflow (-n) n) := by
    unfold intRange checkedInt
    split_ifs
    · intro i hi
      obtain ⟨j, hj, rfl⟩ := List.mem_map.mp hi
      have hlt := List.mem_range.mp hj
      omega
    · exact not_false
    · intro i hi
      cases hi
  refine hfirst.bind fun first hfirst => ?_
  subst hfirst
  refine hrange.bind fun range hmem => meets_foldlM fun i hi w => ?_
  obtain ⟨hle, hge⟩ := hmem i hi
  split_ifs
  · exact (h i hle hge).bind fun _ _ => trivial
  · trivial

section

variable [Ring K]

/-- A vector study all of whose indices exist does not abort. -/
theorem vectorLoop_meets {numSteps : ℕ} (h : ∀ p ∈ setDims study (uniformSteps study numSteps),
      ∀ k : ℤ, 0 ≤ k → k ≤ numSteps → p.1.Exists k) :
    Meets (fun e => ¬ StudyError.IsAbort e) (fun _ => True) (vectorLoop study numSteps) := by
  simp only [setDims, List.forall_mem_append] at h
  obtain ⟨hint, hstring, hreal⟩ := h
  refine meets_mapM fun i hi => ?_
  have hle : (i : ℤ) ≤ numSteps := by
    have hlt := List.mem_range.mp hi
    omega
  have hnonneg : (0 : ℤ) ≤ i := Int.natCast_nonneg i
  unfold vectorPoint
  refine (meets_mapM fun var hvar => ?_).bind fun _ _ => ?_
  · exact diStep_meets fun p hp =>
      hint p (intSetDim_subset (mem_zip_replicate hvar (numSteps : ℤ)) hp) i hnonneg hle
  refine (meets_mapM fun var hvar => ?_).bind fun _ _ => ?_
  · exact setStep_meets (hstring _ (List.mem_map_of_mem (mem_zip_replicate hvar _)) i hnonneg hle)
  refine (meets_mapM fun var hvar => ?_).bind fun _ _ => trivial
  exact setStep_meets (hreal _ (List.mem_map_of_mem (mem_zip_replicate hvar _)) i hnonneg hle)

/-- A centered study all of whose indices exist does not abort. -/
theorem centeredLoop_meets
    (h : ∀ p ∈ setDims study steps, ∀ k : ℤ, |k| ≤ |p.2| → p.1.Exists k) :
    Meets (fun e => ¬ StudyError.IsAbort e) (fun _ => True) (centeredLoop study steps) := by
  simp only [setDims, List.forall_mem_append] at h
  obtain ⟨hint, hstring, hreal⟩ := h
  have habs {i n : ℤ} (hle : -n ≤ i) (hge : i ≤ n) : |i| ≤ |n| :=
    (abs_le.mpr ⟨hle, hge⟩).trans (le_abs_self n)
  unfold centeredLoop
  refine (meets_foldlM fun var hvar w => ?_).bind fun _ _ => ?_
  · exact stepLoop_meets fun _ _ _ => trivial
  refine (meets_foldlM fun var hvar w => ?_).bind fun _ _ => ?_
  · refine stepLoop_meets fun i hle hge => Meets.bind (diStep_meets (n := var.1.2) fun p hp => ?_)
      fun _ _ => trivial
    have hn : p.2 = var.1.2 := by
      obtain ⟨⟨v, n⟩, j⟩ := var
      cases v with
      | range v => cases hp
      | set v =>
        cases hp
        rfl
    exact hint p (intSetDim_subset (List.fst_mem_of_mem_zipIdx hvar) hp) i (hn ▸ habs hle hge)
  refine (meets_foldlM fun var hvar w => ?_).bind fun _ _ => ?_
  · refine stepLoop_meets fun i hle hge => Meets.bind (setStep_meets ?_) fun _ _ => trivial
    exact hstring _ (List.mem_map_of_mem (List.fst_mem_of_mem_zipIdx hvar)) i (habs hle hge)
  refine meets_foldlM fun var hvar w => ?_
  refine stepLoop_meets fun i hle hge => Meets.bind (setStep_meets ?_) fun _ _ => trivial
  exact hreal _ (List.mem_map_of_mem (List.fst_mem_of_mem_zipIdx hvar)) i (habs hle hge)

end

/-! ## Studies -/

/-- The specification of a study, as the checks before leave it. -/
inductive StudySpec
  | vector (numSteps : ℕ)
  | centered (steps : ByType ℤ)

namespace StudySpec

/-- `check_ranges_sets` -/
def check (study : ParamStudy K) : StudySpec → Except StudyError Bool
  | vector numSteps => checkRangesSets study numSteps
  | centered steps => checkRangesSetsCentered study steps

/-- The loop of the study reaches an abort. -/
def Aborts [Ring K] (study : ParamStudy K) : StudySpec → Prop
  | vector numSteps => ∃ e, vectorLoop study numSteps = .error e ∧ e.IsAbort
  | centered steps => ∃ e, centeredLoop study steps = .error e ∧ e.IsAbort

/-- Every index that the study visits exists. -/
def Valid (study : ParamStudy K) : StudySpec → Prop
  | vector numSteps => ∀ p ∈ setDims study (uniformSteps study numSteps), ∀ k : ℤ,
      0 ≤ k → k ≤ numSteps → p.1.Exists k
  | centered steps => ∀ p ∈ setDims study steps, ∀ k : ℤ, |k| ≤ |p.2| → p.1.Exists k

/-- The ends that the checks look at: those of string variables on one side only. -/
def ends (study : ParamStudy K) : StudySpec → List (SetDim × ℤ)
  | vector numSteps => setDims study (uniformSteps study numSteps)
  | centered steps => setDims study steps ++
      setDims study ⟨steps.c.map (-·), steps.di.map (-·), steps.ds, steps.dr.map (-·)⟩

/-- The numbers of steps whose sign the checks turn. -/
def turned : StudySpec → List ℤ
  | vector _ => []
  | centered steps => steps.c ++ (steps.di ++ steps.dr)

/-- The ends that the checks do not look at: an initial value that is not in its set, and the other
side of a string variable. -/
def OthersExist (study : ParamStudy K) : StudySpec → Prop
  | vector numSteps => ∀ p ∈ setDims study (uniformSteps study numSteps), p.1.index0 ≠ none
  | centered steps => ∀ p ∈ stringSetDims study steps.ds, p.1.Exists (-p.2)

end StudySpec

/-- The check is defined and accepts the studies whose indices exist, so that none aborts. -/
structure StudyPredicts [Ring K] (study : ParamStudy K) (spec : StudySpec) : Prop where
  accepts_iff : ∃ err, spec.check study = .ok err ∧ (err = false ↔ spec.Valid study)
  no_abort : spec.check study = .ok false → ¬ spec.Aborts study

/-- No product overflows, and some end that is looked at is outside of its set or those that are not
looked at exist too. -/
structure EndsSuffice (study : ParamStudy K) (spec : StudySpec) : Prop where
  turned_int : ∀ n ∈ spec.turned, IsInt (-n)
  product_int : ∀ p ∈ spec.ends study, IsInt (p.1.step * p.2)
  others : (∃ p ∈ spec.ends study, ¬ p.1.EndInSet p.2) ∨ spec.OthersExist study

theorem scaleNeg_eq_ok {steps steps' : List ℤ} :
    scaleNeg steps = .ok steps' ↔ (∀ n ∈ steps, IsInt (-n)) ∧ steps' = steps.map (-·) := by
  unfold scaleNeg
  rw [mapM_eq_ok]
  simp only [checkedInt_eq_ok, List.forall₂_and_left]
  rw [← List.forall₂_map_left_iff (f := (-· : ℤ → ℤ)) (R := fun a b => b = a)]
  refine and_congr_right fun _ => ?_
  rw [show (fun a b : ℤ => b = a) = fun a b => a = b from funext₂ fun a b => propext eq_comm,
    List.forall₂_eq_eq_eq, eq_comm]

/-- What the checks say: they look at the ends. -/
theorem StudySpec.check_eq_ok {spec : StudySpec} : spec.check study = .ok err ↔
    (∀ n ∈ spec.turned, IsInt (-n)) ∧ (∀ p ∈ spec.ends study, IsInt (p.1.step * p.2)) ∧
      (err = false ↔ ∀ p ∈ spec.ends study, p.1.EndInSet p.2) := by
  have hnot {l : List (SetDim × ℤ)} : err = (!decide (∀ p ∈ l, p.1.EndInSet p.2)) ↔
      (err = false ↔ ∀ p ∈ l, p.1.EndInSet p.2) := by
    constructor
    · rintro rfl
      rw [Bool.not_eq_false', decide_eq_true_eq]
    · intro h
      rw [Bool.eq_iff_iff, ← not_iff_not, Bool.not_eq_true, h, Bool.not_eq_true, Bool.not_eq_false',
        decide_eq_true_eq]
  cases spec with
  | vector numSteps =>
    show checkSets study (uniformSteps study numSteps) = .ok err ↔ _
    rw [checkSets_eq_ok, hnot]
    simp [turned, ends]
  | centered steps =>
    show checkRangesSetsCentered study steps = .ok err ↔ _
    unfold checkRangesSetsCentered
    simp only [bind_eq_ok, checkSets_eq_ok, scaleNeg_eq_ok, turned, ends, List.forall_mem_append]
    constructor
    · rintro ⟨_, ⟨hpos, rfl⟩, _, ⟨hc, rfl⟩, _, ⟨hdi, rfl⟩, _, ⟨hdr, rfl⟩, _, ⟨hneg, rfl⟩, h⟩
      cases h
      refine ⟨⟨hc, hdi, hdr⟩, ⟨hpos, hneg⟩, ?_⟩
      simp only [Bool.or_eq_false_iff, Bool.not_eq_eq_eq_not, Bool.not_false, decide_eq_true_eq]
    · rintro ⟨⟨hc, hdi, hdr⟩, ⟨hpos, hneg⟩, h⟩
      refine ⟨_, ⟨hpos, rfl⟩, _, ⟨hc, rfl⟩, _, ⟨hdi, rfl⟩, _, ⟨hdr, rfl⟩, _, ⟨hneg, rfl⟩, ?_⟩
      refine congrArg Except.ok ?_
      rw [Bool.eq_iff_iff, ← not_iff_not, Bool.not_eq_true, Bool.not_eq_true, h]
      simp only [Bool.or_eq_false_iff, Bool.not_eq_eq_eq_not, Bool.not_false, decide_eq_true_eq]

omit [DecidableEq K] in
theorem intSetDims_neg {ns : List ℤ} :
    intSetDims study (ns.map (-·)) = (intSetDims study ns).map fun p => (p.1, -p.2) := by
  unfold intSetDims
  rw [List.zip_map_right, List.filterMap_map, List.map_filterMap]
  refine List.filterMap_congr fun var _ => ?_
  obtain ⟨v, n⟩ := var
  cases v <;> rfl

theorem realSetDims_neg {ns : List ℤ} :
    realSetDims study (ns.map (-·)) = (realSetDims study ns).map fun p => (p.1, -p.2) := by
  unfold realSetDims
  rw [List.zip_map_right, List.map_map, List.map_map]
  rfl

/-- Two ends that exist are enough for what is between them. -/
theorem SetDim.exists_of_abs_le {d : SetDim} {n k : ℤ} (h : d.Exists n) (hneg : d.Exists (-n))
    (hk : |k| ≤ |n|) : d.Exists k := by
  rcases abs_cases n with ⟨habs, -⟩ | ⟨habs, -⟩ <;> rw [habs, abs_le] at hk
  · exact hneg.between h hk.1 hk.2
  · rw [neg_neg] at hk
    exact h.between hneg hk.1 hk.2

theorem snd_of_mem_uniformSteps {n : ℤ} {p : SetDim × ℤ} (h : p ∈ setDims study (uniformSteps study n)) :
    p.2 = n := by
  simp only [setDims, intSetDims, stringSetDims, realSetDims, uniformSteps, List.mem_append,
    List.mem_filterMap, List.mem_map] at h
  rcases h with ⟨⟨var, m⟩, hvar, hp⟩ | ⟨var, hvar, rfl⟩ | ⟨var, hvar, rfl⟩
  · have hm := List.eq_of_mem_replicate (List.of_mem_zip hvar).2
    cases var with
    | range v => cases hp
    | set v =>
      cases hp
      exact hm
  · exact List.eq_of_mem_replicate (List.of_mem_zip hvar).2
  · exact List.eq_of_mem_replicate (List.of_mem_zip hvar).2

/-- A study is valid if and only if the ends that the checks look at are in their sets and the others
exist. -/
theorem StudySpec.valid_iff {spec : StudySpec} : spec.Valid study ↔
    (∀ p ∈ spec.ends study, p.1.EndInSet p.2) ∧ spec.OthersExist study := by
  cases spec with
  | vector numSteps =>
    constructor
    · intro h
      refine ⟨fun p hp => ?_, fun p hp => ?_⟩
      · have hn := snd_of_mem_uniformSteps hp
        exact (h p hp p.2 (by omega) hn.le).endInSet
      · obtain ⟨i, hi, -⟩ := h p hp 0 le_rfl (Int.natCast_nonneg numSteps)
        exact hi ▸ Option.some_ne_none i
    · rintro ⟨hends, hothers⟩ p hp k hk hkn
      have hn := snd_of_mem_uniformSteps hp
      have hlast : p.1.Exists p.2 := (hends p hp).exists (hothers p hp)
      exact ((setDims_fits hp).exists_zero (hothers p hp)).between hlast hk (hkn.trans hn.ge)
  | centered steps =>
    have habs (n : ℤ) : |-n| ≤ |n| := (abs_neg n).le
    simp only [Valid, ends, OthersExist, setDims, intSetDims_neg, realSetDims_neg,
      List.forall_mem_append, List.forall_mem_map]
    constructor
    · rintro ⟨hint, hstring, hreal⟩
      have hend {l : List (SetDim × ℤ)} (h : ∀ p ∈ l, ∀ k : ℤ, |k| ≤ |p.2| → p.1.Exists k) :
          (∀ p ∈ l, p.1.EndInSet p.2) ∧ ∀ p ∈ l, p.1.EndInSet (-p.2) :=
        ⟨fun p hp => (h p hp p.2 le_rfl).endInSet, fun p hp => (h p hp (-p.2) (habs p.2)).endInSet⟩
      exact ⟨⟨⟨(hend hint).1, (hend hstring).1, (hend hreal).1⟩,
        (hend hint).2, (hend hstring).1, (hend hreal).2⟩,
        fun p hp => hstring p hp (-p.2) (habs p.2)⟩
    · rintro ⟨⟨⟨hint, hstring, hreal⟩, hintNeg, -, hrealNeg⟩, hothers⟩
      -- a value that is not in its set cannot have both ends in it
      have hboth {l : List (SetDim × ℤ)} (h : ∀ p ∈ l, p.1.EndInSet p.2)
          (hneg : ∀ p ∈ l, p.1.EndInSet (-p.2)) : ∀ p ∈ l, ∀ k : ℤ, |k| ≤ |p.2| → p.1.Exists k := by
        intro p hp k hk
        have hne := SetDim.index0_ne_none (h p hp) (hneg p hp)
        exact SetDim.exists_of_abs_le ((h p hp).exists hne) ((hneg p hp).exists hne) hk
      refine ⟨hboth hint hintNeg, fun p hp k hk => ?_, hboth hreal hrealNeg⟩
      have hother := hothers p hp
      have hne : p.1.index0 ≠ none := by
        obtain ⟨i, hi, -⟩ := hother
        exact hi ▸ Option.some_ne_none i
      exact SetDim.exists_of_abs_le ((hstring p hp).exists hne) hother hk

/-- The loop of a valid study does not abort. -/
theorem StudySpec.Valid.not_aborts [Ring K] {spec : StudySpec} (h : spec.Valid study) :
    ¬ spec.Aborts study := by
  cases spec with
  | vector numSteps =>
    rintro ⟨e, he, habort⟩
    have hmeets := vectorLoop_meets h
    rw [he] at hmeets
    exact hmeets habort
  | centered steps =>
    rintro ⟨e, he, habort⟩
    have hmeets := centeredLoop_meets h
    rw [he] at hmeets
    exact hmeets habort

/-- **Validation** predicts execution if and only if no product of the checks overflows and, unless
an end that they look at is outside of its set, the others exist: the initial values of a vector
study, and the other side of the string variables of a centered one. -/
theorem studyPredicts_iff [Ring K] {spec : StudySpec} :
    StudyPredicts study spec ↔ EndsSuffice study spec := by
  constructor
  · intro h
    obtain ⟨err, hcheck, hvalid⟩ := h.accepts_iff
    obtain ⟨hturned, hproduct, herr⟩ := StudySpec.check_eq_ok.mp hcheck
    refine ⟨hturned, hproduct, ?_⟩
    by_cases hends : ∀ p ∈ spec.ends study, p.1.EndInSet p.2
    · exact .inr (StudySpec.valid_iff.mp (hvalid.mp (herr.mpr hends))).2
    · push Not at hends
      exact .inl hends
  · intro h
    have hvalid : spec.Valid study ↔ ∀ p ∈ spec.ends study, p.1.EndInSet p.2 := by
      rw [StudySpec.valid_iff]
      refine and_iff_left_of_imp fun hends => ?_
      rcases h.others with ⟨p, hp, hout⟩ | hothers
      · exact absurd (hends p hp) hout
      · exact hothers
    constructor
    · refine ⟨!decide (∀ p ∈ spec.ends study, p.1.EndInSet p.2), ?_, ?_⟩
      · refine StudySpec.check_eq_ok.mpr ⟨h.turned_int, h.product_int, ?_⟩
        rw [Bool.not_eq_false', decide_eq_true_eq]
      · rw [hvalid, Bool.not_eq_false', decide_eq_true_eq]
    · intro hcheck
      obtain ⟨-, -, herr⟩ := StudySpec.check_eq_ok.mp hcheck
      exact (hvalid.mpr (herr.mp rfl)).not_aborts

/-- One string variable at the first of its two values. -/
def stringStudy : ParamStudy ℚ where
  cv := []
  div := []
  dsv := [⟨"a", ["a", "b"], 1, by decide⟩]
  drv := []
  totals := [⟨0, 0, 1, 0⟩]
  cv_totals := rfl
  div_totals := rfl
  dsv_totals := rfl
  drv_totals := rfl
  numVars_int := by decide

/-- One step to both sides of the first value: the check accepts, and the loop aborts. -/
theorem firstString_accepted : ¬ StudyPredicts stringStudy (.centered ⟨[], [], [1], []⟩) := by
  intro h
  have hcheck : StudySpec.check stringStudy (.centered ⟨[], [], [1], []⟩) = .ok false := by
    decide +kernel
  exact h.no_abort hcheck ⟨.indexOutOfRange (-1), rfl, trivial⟩

end

end Dakota
