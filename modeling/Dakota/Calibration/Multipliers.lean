import Dakota.Calibration.ExperimentData
import Dakota.Lib.RangeLoop

/-!
# The assignment of residuals to multipliers

`assignment` says which multiplier affects each residual: residuals run over the experiments, in
each over the responses, in each over its points, and a mode looks at the experiment, at the
response, or at both.

* `assignLoop_eq`: the loops of `generate_multipliers` and `resid2mult_map` follow it.
* `residualsPerMultiplier_entry`: `residuals_per_multiplier` counts it.
* `assignmentsAgree_iff`: the routines agree, with as many multipliers as there are labels, unless
  the mode is `CALIBRATE_ONE` or constraints are counted as responses.
-/

namespace Dakota.ExperimentData

variable (e : ExperimentData)

/-! ## The assignment -/

/-- The responses of an experiment that residuals come from. -/
def numResp : ℕ := e.numScalarPrimary + e.numFieldResponseGroups

/-- The number of residuals of response `resp` in experiment `exp`. -/
def points (exp resp : ℕ) : ℕ :=
  if resp < e.numScalarPrimary then 1
  else (e.fieldLengths exp).getD (resp - e.numScalarPrimary) 0

/-- The multiplier of response `resp` in experiment `exp`. -/
def multiplierOf (mode : MultiplierMode) (exp resp : ℕ) : ℕ :=
  match mode with
  | .none | .one => 0
  | .perExper => exp
  | .perResp => resp
  | .both => exp * e.numResp + resp

/-- The multiplier of each residual. -/
def assignment (mode : MultiplierMode) : List ℕ :=
  (List.range e.numExperiments).flatMap fun exp => (List.range e.numResp).flatMap fun resp =>
    List.replicate (e.points exp resp) (e.multiplierOf mode exp resp)

/-- How many multipliers a mode has. -/
def numMultipliers (mode : MultiplierMode) : ℕ :=
  match mode with
  | .none => 0
  | .one => 1
  | .perExper => e.numExperiments
  | .perResp => e.numResp
  | .both => e.numExperiments * e.numResp

theorem hyperparamLabels_length (mode : MultiplierMode) :
    (e.hyperparamLabels mode).length = e.numMultipliers mode := by
  cases mode <;> simp [hyperparamLabels, numMultipliers, numResp]

/-! ## Sizes -/

theorem fieldLengths_length {exp : ℕ} (h : exp < e.numExperiments) :
    (e.fieldLengths exp).length = e.numFieldResponseGroups := by
  rw [fieldLengths, List.getD_eq_getElem _ _ h]
  exact e.fields _ (List.getElem_mem h)

theorem sum_range_getD (l : List ℕ) : ∑ f ∈ Finset.range l.length, l.getD f 0 = l.sum := by
  rw [Finset.sum_range, ← Fin.sum_univ_getElem]
  exact Finset.sum_congr rfl fun f _ => List.getD_eq_getElem _ _ f.2

/-- The primary functions of an experiment are the points of its responses. -/
theorem numPrimaryFunctions_eq {exp : ℕ} (h : exp < e.numExperiments) :
    e.numPrimaryFunctions exp = ∑ resp ∈ Finset.range e.numResp, e.points exp resp := by
  have hscalar : ∑ s ∈ Finset.range e.numScalarPrimary, e.points exp s = e.numScalarPrimary := by
    have hone : ∀ s ∈ Finset.range e.numScalarPrimary, e.points exp s = 1 :=
      fun s hs => if_pos (Finset.mem_range.mp hs)
    rw [Finset.sum_congr rfl hone]
    simp
  have hfield : ∑ f ∈ Finset.range e.numFieldResponseGroups,
      e.points exp (e.numScalarPrimary + f) = (e.fieldLengths exp).sum := by
    rw [← sum_range_getD, e.fieldLengths_length h]
    exact Finset.sum_congr rfl fun f _ => by simp [points]
  rw [numResp, Finset.sum_range_add, hscalar, hfield, numPrimaryFunctions]

theorem numTotalExppoints_eq : e.numTotalExppoints =
    ∑ exp ∈ Finset.range e.numExperiments, e.numPrimaryFunctions exp := by
  rw [numTotalExppoints, foldl_range_add, zero_add]

theorem assignment_length (mode : MultiplierMode) :
    (e.assignment mode).length = e.numTotalExppoints := by
  rw [assignment, List.length_flatMap, sum_map_range, numTotalExppoints_eq]
  refine Finset.sum_congr rfl fun exp hexp => ?_
  rw [List.length_flatMap, sum_map_range, e.numPrimaryFunctions_eq (Finset.mem_range.mp hexp)]
  exact Finset.sum_congr rfl fun resp _ => List.length_replicate

/-- How many residuals a multiplier affects. -/
theorem count_assignment (mode : MultiplierMode) (i : ℕ) : (e.assignment mode).count i =
    ∑ exp ∈ Finset.range e.numExperiments, ∑ resp ∈ Finset.range e.numResp,
      if e.multiplierOf mode exp resp = i then e.points exp resp else 0 := by
  rw [assignment, List.count_flatMap, sum_map_range]
  refine Finset.sum_congr rfl fun exp _ => ?_
  rw [Function.comp_apply, List.count_flatMap, sum_map_range]
  refine Finset.sum_congr rfl fun resp _ => ?_
  rw [Function.comp_apply, List.count_replicate]
  simp

theorem assignment_lt (mode : MultiplierMode) (hmode : mode ≠ .none) :
    ∀ a ∈ e.assignment mode, a < e.numMultipliers mode := by
  intro a ha
  simp only [assignment, List.mem_flatMap, List.mem_range, List.mem_replicate] at ha
  obtain ⟨exp, hexp, resp, hresp, -, rfl⟩ := ha
  cases mode with
  | none => exact absurd rfl hmode
  | one => exact one_pos
  | perExper => exact hexp
  | perResp => exact hresp
  | both =>
    calc exp * e.numResp + resp < exp * e.numResp + e.numResp := Nat.add_lt_add_left hresp _
      _ = (exp + 1) * e.numResp := by ring
      _ ≤ e.numExperiments * e.numResp := Nat.mul_le_mul_right _ hexp

/-! ## The loops -/

section Loops

variable {α : Type} (value : ℕ → α)

theorem flatMap_replicate (n : ℕ) (f : ℕ → ℕ) (a : α) :
    ((List.range n).flatMap fun i => List.replicate (f i) a) =
      List.replicate (∑ i ∈ Finset.range n, f i) a := by
  induction n with
  | zero => rfl
  | succ n ih =>
    rw [List.range_succ, List.flatMap_append, ih, Finset.sum_range_succ, List.replicate_add]
    simp

theorem fill_eq (filled : List α) (n : ℕ) (a : α) :
    (List.range n).foldl (fun filled _ => filled ++ [a]) filled = filled ++ List.replicate n a := by
  have hones := flatMap_replicate n (fun _ => 1) a
  rw [Finset.sum_const, Finset.card_range, smul_eq_mul, mul_one] at hones
  rw [foldl_range_append (fun _ => [a]), ← hones]
  rfl

/-- The responses of one experiment are assigned in order, from the multiplier in turn on. -/
theorem responseLoop_eq (exp : ℕ) (st : List α × ℕ) :
    e.responseLoop value (e.fieldLengths exp) st =
      (st.1 ++ (List.range e.numResp).flatMap fun resp =>
        List.replicate (e.points exp resp) (value (st.2 + resp)), st.2 + e.numResp) := by
  rw [responseLoop]
  simp only [fill_eq]
  rw [foldl_range_append_count (fun _ mult => [value mult]),
    foldl_range_append_count fun f mult =>
      List.replicate ((e.fieldLengths exp).getD f 0) (value mult)]
  have hscalars : (List.range e.numScalarPrimary).flatMap (fun s => [value (st.2 + s)]) =
      (List.range e.numScalarPrimary).flatMap fun resp =>
        List.replicate (e.points exp resp) (value (st.2 + resp)) :=
    List.flatMap_congr fun s hs => by simp [points, List.mem_range.mp hs]
  rw [hscalars, numResp, List.range_add, List.flatMap_append, List.flatMap_map, List.append_assoc,
    Nat.add_assoc]
  simp [points, Nat.add_assoc]

theorem assignLoop_perExper : e.assignLoop value .perExper =
    (e.assignment .perExper).map value := by
  rw [assignLoop]
  simp only [fill_eq]
  rw [foldl_range_append, List.nil_append, assignment, List.map_flatMap]
  refine List.flatMap_congr fun exp hexp => ?_
  rw [e.numPrimaryFunctions_eq (List.mem_range.mp hexp), ← flatMap_replicate, List.map_flatMap]
  exact List.flatMap_congr fun resp _ => List.map_replicate.symm

theorem assignLoop_perResp : e.assignLoop value .perResp =
    (e.assignment .perResp).map value := by
  rw [assignLoop]
  simp only [responseLoop_eq]
  rw [foldl_range_append, List.nil_append, assignment, List.map_flatMap]
  refine List.flatMap_congr fun exp _ => ?_
  rw [List.map_flatMap]
  refine List.flatMap_congr fun resp _ => ?_
  rw [List.map_replicate, multiplierOf, Nat.zero_add]

theorem assignLoop_both : e.assignLoop value .both = (e.assignment .both).map value := by
  rw [assignLoop, assignment, List.map_flatMap]
  -- after `n` experiments the multiplier in turn is `n * numResp`
  have run : ∀ n, (List.range n).foldl (fun st exp =>
      e.responseLoop value (e.fieldLengths exp) st) ([], 0) =
      ((List.range n).flatMap fun exp => ((List.range e.numResp).flatMap fun resp =>
        List.replicate (e.points exp resp) (e.multiplierOf .both exp resp)).map value,
        n * e.numResp) := by
    intro n
    induction n with
    | zero => simp
    | succ n ih =>
      rw [List.range_succ, List.foldl_append, ih, List.foldl_cons, List.foldl_nil,
        responseLoop_eq, List.flatMap_append, List.flatMap_singleton, List.map_flatMap,
        Nat.succ_mul]
      simp only [List.map_replicate, multiplierOf]
  rw [run]

end Loops

/-! ## Counts -/

theorem residualsPerMultiplier_perExper {i : ℕ} (hi : i < e.numExperiments) :
    (e.residualsPerMultiplier .perExper).entry i = (e.assignment .perExper).count i := by
  have hentry : (e.residualsPerMultiplier .perExper).entry i = e.numPrimaryFunctions i := by
    simp only [residualsPerMultiplier, foldl_range_set]
    exact if_pos hi
  rw [hentry, count_assignment, e.numPrimaryFunctions_eq hi,
    Finset.sum_eq_single i _ (fun h => absurd (Finset.mem_range.mpr hi) h)]
  · exact Finset.sum_congr rfl fun resp _ => (if_pos rfl).symm
  · exact fun exp _ hne => Finset.sum_eq_zero fun resp _ => if_neg hne

theorem residualsPerMultiplier_perResp {i : ℕ} (hi : i < e.numResp) :
    (e.residualsPerMultiplier .perResp).entry i = (e.assignment .perResp).count i := by
  have hscalars := foldl_range_bump (fun _ => e.numExperiments) (fun _ => 0) 0 e.numScalarPrimary
  simp only [Nat.zero_add, Nat.zero_le, true_and] at hscalars
  have hentry : (e.residualsPerMultiplier .perResp).entry i =
      ∑ exp ∈ Finset.range e.numExperiments, e.points exp i := by
    simp only [residualsPerMultiplier, hscalars, foldl_range_bump]
    have hsum := foldl_range_add (fun exp i => if e.numScalarPrimary ≤ i ∧
      i < e.numScalarPrimary + e.numFieldResponseGroups then
      (e.fieldLengths exp).getD (i - e.numScalarPrimary) 0 else 0)
      (fun i => if i < e.numScalarPrimary then e.numExperiments else 0) e.numExperiments
    have hstep : (fun (c : ℕ → ℕ) exp => fun i => c i + if e.numScalarPrimary ≤ i ∧
        i < e.numScalarPrimary + e.numFieldResponseGroups then
        (e.fieldLengths exp).getD (i - e.numScalarPrimary) 0 else 0) =
        fun c exp => c + fun i => if e.numScalarPrimary ≤ i ∧
        i < e.numScalarPrimary + e.numFieldResponseGroups then
        (e.fieldLengths exp).getD (i - e.numScalarPrimary) 0 else 0 := rfl
    rw [hstep, hsum, Pi.add_apply, Finset.sum_apply]
    by_cases hs : i < e.numScalarPrimary
    · simp [points, hs, not_le.mpr hs]
    · have hf : e.numScalarPrimary ≤ i ∧
          i < e.numScalarPrimary + e.numFieldResponseGroups := ⟨not_lt.mp hs, hi⟩
      simp [points, hs, hf]
  rw [hentry, count_assignment]
  refine Finset.sum_congr rfl fun exp _ => ?_
  rw [Finset.sum_eq_single i]
  · exact (if_pos rfl).symm
  · exact fun resp _ hne => if_neg hne
  · exact fun h => absurd (Finset.mem_range.mpr hi) h

theorem exp_of_pair (exp : ℕ) {resp : ℕ} (h : resp < e.numResp) :
    (exp * e.numResp + resp) / e.numResp = exp := by
  rw [Nat.mul_comm, Nat.mul_add_div (Nat.zero_lt_of_lt h), Nat.div_eq_of_lt h, Nat.add_zero]

/-- The entries are set in the order of the experiments and their responses. -/
theorem bothLoop_eq (n : ℕ) :
    (List.range n).foldl (fun st exp =>
        let st := (List.range e.numScalarPrimary).foldl (fun (st : (ℕ → ℕ) × ℕ) _ =>
          (Function.update st.1 st.2 1, st.2 + 1)) st
        (List.range e.numFieldResponseGroups).foldl (fun (st : (ℕ → ℕ) × ℕ) f =>
          (Function.update st.1 st.2 ((e.fieldLengths exp).getD f 0), st.2 + 1)) st)
      (fun _ => 0, 0) =
    (fun i => if i < n * e.numResp then e.points (i / e.numResp) (i % e.numResp) else 0,
      n * e.numResp) := by
  induction n with
  | zero => simp
  | succ n ih =>
    rw [List.range_succ, List.foldl_append, ih, List.foldl_cons, List.foldl_nil]
    dsimp only
    rw [foldl_range_fill (fun _ => 1), foldl_range_fill fun f => (e.fieldLengths n).getD f 0]
    have hnext : (n + 1) * e.numResp =
        n * e.numResp + e.numScalarPrimary + e.numFieldResponseGroups := by
      rw [Nat.succ_mul, numResp, Nat.add_assoc]
    refine Prod.ext (funext fun i => ?_) hnext.symm
    rw [hnext]
    dsimp only
    rcases lt_or_ge i (n * e.numResp) with hi | hi
    · have hfields : ¬ (n * e.numResp + e.numScalarPrimary ≤ i ∧
          i < n * e.numResp + e.numScalarPrimary + e.numFieldResponseGroups) := by omega
      have hscalars : ¬ (n * e.numResp ≤ i ∧ i < n * e.numResp + e.numScalarPrimary) := by omega
      rw [if_neg hfields, if_neg hscalars, if_pos hi, if_pos (by omega)]
    · obtain ⟨resp, rfl⟩ := Nat.exists_eq_add_of_le hi
      have hresp : n * e.numResp + resp <
          n * e.numResp + e.numScalarPrimary + e.numFieldResponseGroups ↔ resp < e.numResp := by
        rw [numResp]
        omega
      have hbehind : ¬ n * e.numResp + resp < n * e.numResp := by omega
      by_cases hr : resp < e.numResp
      · rw [e.exp_of_pair n hr, Nat.mul_add_mod_of_lt hr, points, if_pos (hresp.mpr hr)]
        by_cases hs : resp < e.numScalarPrimary
        · have hfields : ¬ (n * e.numResp + e.numScalarPrimary ≤ n * e.numResp + resp ∧
              n * e.numResp + resp <
                n * e.numResp + e.numScalarPrimary + e.numFieldResponseGroups) := by omega
          rw [if_neg hfields, if_pos ⟨hi, by omega⟩, if_pos hs]
        · have hsub : n * e.numResp + resp - (n * e.numResp + e.numScalarPrimary) =
              resp - e.numScalarPrimary := by omega
          rw [if_pos ⟨by omega, hresp.mpr hr⟩, if_neg hs, hsub]
      · have hscalars : ¬ (n * e.numResp ≤ n * e.numResp + resp ∧
            n * e.numResp + resp < n * e.numResp + e.numScalarPrimary) := by
          rw [numResp] at hr
          omega
        rw [if_neg fun h => hr (hresp.mp h.2), if_neg hscalars, if_neg hbehind,
          if_neg (hresp.not.mpr hr)]

theorem residualsPerMultiplier_both {i : ℕ} (hi : i < e.numExperiments * e.numResp) :
    (e.residualsPerMultiplier .both).entry i = (e.assignment .both).count i := by
  have hentry : (e.residualsPerMultiplier .both).entry i =
      e.points (i / e.numResp) (i % e.numResp) := by
    simp only [residualsPerMultiplier, bothLoop_eq]
    exact if_pos hi
  have hpos : 0 < e.numResp := Nat.pos_of_ne_zero fun h => by simp [h] at hi
  have hexp : i / e.numResp < e.numExperiments := Nat.div_lt_of_lt_mul (by rwa [Nat.mul_comm])
  have hresp : i % e.numResp < e.numResp := Nat.mod_lt i hpos
  rw [hentry, count_assignment, Finset.sum_eq_single (i / e.numResp),
    Finset.sum_eq_single (i % e.numResp)]
  · exact (if_pos (Nat.div_add_mod' i e.numResp)).symm
  · rintro resp hr hne
    refine if_neg fun h => hne ?_
    rw [← h, multiplierOf, Nat.mul_add_mod_of_lt (Finset.mem_range.mp hr)]
  · exact fun h => absurd (Finset.mem_range.mpr hresp) h
  · rintro exp he hne
    refine Finset.sum_eq_zero fun resp hr => if_neg fun h => hne ?_
    rw [← h, multiplierOf, e.exp_of_pair exp (Finset.mem_range.mp hr)]
  · exact fun h => absurd (Finset.mem_range.mpr hexp) h

/-! ## Agreement -/

/-- The modes with several multipliers. -/
def Several (mode : MultiplierMode) : Prop := mode ≠ .none ∧ mode ≠ .one

/-- Where responses have multipliers, none of them is a constraint. -/
def NoConstraints (mode : MultiplierMode) : Prop :=
  mode = .perResp ∨ mode = .both → e.numScalarResponses = e.numScalarPrimary

variable {e} {mode : MultiplierMode}

theorem assignLoop_eq {α : Type} (value : ℕ → α) (h : Several mode) :
    e.assignLoop value mode = (e.assignment mode).map value := by
  cases mode with
  | none => exact absurd rfl h.1
  | one => exact absurd rfl h.2
  | perExper => exact e.assignLoop_perExper value
  | perResp => exact e.assignLoop_perResp value
  | both => exact e.assignLoop_both value

theorem residualsPerMultiplier_entry (h : Several mode) {i : ℕ} (hi : i < e.numMultipliers mode) :
    (e.residualsPerMultiplier mode).entry i = (e.assignment mode).count i := by
  cases mode with
  | none => exact absurd rfl h.1
  | one => exact absurd rfl h.2
  | perExper => exact e.residualsPerMultiplier_perExper hi
  | perResp => exact e.residualsPerMultiplier_perResp hi
  | both => exact e.residualsPerMultiplier_both hi

theorem assert_bind_eq_ok {α : Type} {p : Prop} [Decidable p] {f : Unit → Except String α} {a : α}
    (h : assert p >>= f = .ok a) : p := by
  by_contra hp
  rw [assert, if_neg hp] at h
  cases h

theorem assert_bind {α : Type} {p : Prop} [Decidable p] {f : Unit → Except String α} (h : p) :
    assert p >>= f = f () := by
  rw [assert, if_pos h]
  rfl

theorem numResponseGroups_eq_iff :
    e.numResp = e.numResponseGroups ↔ e.numScalarResponses = e.numScalarPrimary := by
  rw [numResp, numResponseGroups]
  omega

theorem numExperiments_pos : 0 < e.numExperiments := List.length_pos_iff.mpr e.nonempty

/-- As many multipliers as there are labels are accepted unless constraints are counted. -/
theorem generateMultipliers_eq_ok {mults : RealVector} {l : List ℝ}
    (hlen : mults.length = e.numMultipliers mode) (h : e.generateMultipliers mults mode = .ok l) :
    e.NoConstraints mode := by
  rintro (rfl | rfl)
  · have hsize : mults.length = e.numResponseGroups := assert_bind_eq_ok h
    exact numResponseGroups_eq_iff.mp (hlen.symm.trans hsize)
  · have hsize : mults.length = e.numExperiments * e.numResponseGroups := assert_bind_eq_ok h
    exact numResponseGroups_eq_iff.mp
      (Nat.eq_of_mul_eq_mul_left numExperiments_pos (hlen.symm.trans hsize))

theorem generateMultipliers_eq (hmode : Several mode) (hcon : e.NoConstraints mode)
    {mults : RealVector} (hlen : mults.length = e.numMultipliers mode) :
    e.generateMultipliers mults mode = .ok ((e.assignment mode).map mults.values) := by
  cases mode with
  | none => exact absurd rfl hmode.1
  | one => exact absurd rfl hmode.2
  | perExper =>
    have hsize : mults.length = e.numExperiments := hlen
    rw [generateMultipliers, assert_bind hsize, assignLoop_eq _ hmode]
    rfl
  | perResp =>
    have hsize := hlen.trans (numResponseGroups_eq_iff.mpr (hcon (.inl rfl)))
    rw [generateMultipliers, assert_bind hsize, assignLoop_eq _ hmode]
    rfl
  | both =>
    have hsize : mults.length = e.numExperiments * e.numResponseGroups := by
      rw [← numResponseGroups_eq_iff.mpr (hcon (.inr rfl))]
      exact hlen
    rw [generateMultipliers, assert_bind hsize, assignLoop_eq _ hmode]
    rfl

theorem resid2multMap_eq (hmode : Several mode) :
    e.resid2multMap mode = .ok (e.assignment mode) := by
  have hloop := assignLoop_eq (e := e) id hmode
  rw [List.map_id] at hloop
  cases mode with
  | none => exact absurd rfl hmode.1
  | one => exact absurd rfl hmode.2
  | perExper => exact congrArg Except.ok hloop
  | perResp => exact congrArg Except.ok hloop
  | both => exact congrArg Except.ok hloop

theorem residualsPerMultiplier_size (hmode : Several mode) (hcon : e.NoConstraints mode) :
    (e.residualsPerMultiplier mode).size = e.numMultipliers mode := by
  cases mode with
  | none => exact absurd rfl hmode.1
  | one => exact absurd rfl hmode.2
  | perExper => rfl
  | perResp => rfl
  | both =>
    change e.numExperiments * e.numResponseGroups = e.numExperiments * e.numResp
    rw [numResponseGroups_eq_iff.mpr (hcon (.inr rfl))]

variable (e mode)

/-- The routines all describe the assignment `a`, to as many multipliers as there are labels. -/
structure Describes (a : List ℕ) : Prop where
  length : a.length = e.numTotalExppoints
  lt : ∀ i ∈ a, i < (e.hyperparamLabels mode).length
  map : e.resid2multMap mode = .ok a
  generate : ∀ mults : RealVector, mults.length = (e.hyperparamLabels mode).length →
    e.generateMultipliers mults mode = .ok (a.map mults.values)
  size : (e.residualsPerMultiplier mode).size = (e.hyperparamLabels mode).length
  counts : ∀ i < (e.hyperparamLabels mode).length,
    (e.residualsPerMultiplier mode).entry i = a.count i

/-- Without multipliers there is nothing to assign, and the expanded multipliers are ones. -/
def AssignmentsAgree : Prop :=
  match mode with
  | .none => e.hyperparamLabels .none = [] ∧ (e.residualsPerMultiplier .none).size = 0 ∧
      ∀ mults, e.generateMultipliers mults .none = .ok (List.replicate e.numTotalExppoints 1)
  | mode => ∃ a, e.Describes mode a

variable {e mode}

theorem describes_assignment (hmode : Several mode) (hcon : e.NoConstraints mode) :
    e.Describes mode (e.assignment mode) where
  length := e.assignment_length mode
  lt i hi := by
    rw [hyperparamLabels_length]
    exact e.assignment_lt mode hmode.1 i hi
  map := resid2multMap_eq hmode
  generate mults hlen :=
    generateMultipliers_eq hmode hcon (hlen.trans (e.hyperparamLabels_length mode))
  size := by rw [residualsPerMultiplier_size hmode hcon, hyperparamLabels_length]
  counts i hi := residualsPerMultiplier_entry hmode (by rwa [hyperparamLabels_length] at hi)

theorem Describes.noConstraints {a : List ℕ} (h : e.Describes mode a) : e.NoConstraints mode :=
  generateMultipliers_eq_ok (e.hyperparamLabels_length mode)
    (h.generate ⟨(e.hyperparamLabels mode).length, fun _ => 1⟩ rfl)

theorem assignmentsAgree_iff : e.AssignmentsAgree mode ↔ mode ≠ .one ∧ e.NoConstraints mode := by
  cases mode with
  | none => exact ⟨fun _ => ⟨nofun, nofun⟩, fun _ => ⟨rfl, rfl, fun _ => rfl⟩⟩
  | one =>
    refine ⟨?_, fun h => absurd rfl h.1⟩
    rintro ⟨a, h⟩
    -- there is one label and no count
    exact absurd h.size (by simp [residualsPerMultiplier, hyperparamLabels])
  | perExper =>
    exact ⟨fun _ => ⟨nofun, nofun⟩, fun h => ⟨_, describes_assignment ⟨nofun, nofun⟩ h.2⟩⟩
  | perResp =>
    exact ⟨fun ⟨_, h⟩ => ⟨nofun, h.noConstraints⟩,
      fun h => ⟨_, describes_assignment ⟨nofun, nofun⟩ h.2⟩⟩
  | both =>
    exact ⟨fun ⟨_, h⟩ => ⟨nofun, h.noConstraints⟩,
      fun h => ⟨_, describes_assignment ⟨nofun, nofun⟩ h.2⟩⟩

end Dakota.ExperimentData
