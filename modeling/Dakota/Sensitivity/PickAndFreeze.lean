import Dakota.Lib.RangeLoop

/-!
# Variance-based decomposition

The replicates of `get_vbd_parameter_sets` (`Analyzer`, `src/src/DakotaAnalyzer.cpp`) and the indices
that `compute_pick_and_freeze_vbd_stats` (`SensAnalysisGlobal`, `src/src/SensAnalysisGlobal.cpp`)
computes from the responses to them, over exact arithmetic.

* `column_getVbdParameterSets`: replicate `i + 2` is the second sample with row `i` of the first one.
* `fillFnVals_eq`: the responses in evaluation order are those of the replicates.
* `indexSi_eq`, `indexTi_eq`: the indices as means over the samples; `varHatYC_eq`: the variance
  estimate is the variance of both samples together.
* `pickAndFreeze_exact`: what the indices say about functions.
-/

namespace Dakota.Sensitivity

variable {K : Type} [Field K]

inductive VbdError where
  | compactMode
  | samples (expected received : ℕ)
  | responses (expected received : ℕ)
  deriving DecidableEq, Repr

/-- What `get_parameter_sets` leaves in a matrix, with its number of columns. -/
structure ParameterSample (K : Type) where
  numCols : ℕ
  entry : ℕ → ℕ → K

/-- Columns of a matrix, from `start` on. -/
def view (m : ℕ → ℕ → K) (start : ℕ) : ℕ → ℕ → K := fun row j => m row (start + j)

/-- Assignment to the view of `num` columns from `start` on. -/
def assignView (m : ℕ → ℕ → K) (start num : ℕ) (source : ℕ → ℕ → K) : ℕ → ℕ → K :=
  fun row col => if start ≤ col ∧ col < start + num then source row (col - start) else m row col

/-- `m(row, col) = x` -/
def setEntry (m : ℕ → ℕ → K) (row col : ℕ) (x : K) : ℕ → ℕ → K :=
  Function.update m row (Function.update (m row) col x)

/-- The replicate of variable `i`: the second sample, with a row of the first one. -/
def addReplicate (numSamples : ℕ) (allSamples : ℕ → ℕ → K) (i : ℕ) : ℕ → ℕ → K :=
  let start := (i + 2) * numSamples
  (List.range numSamples).foldl
    (fun m j => setEntry m i (start + j) (view m 0 i j))
    (assignView allSamples start numSamples (view allSamples numSamples))

/-- `get_vbd_parameter_sets`, for the samples that `get_parameter_sets` returns. -/
def getVbdParameterSets (compactMode : Bool) (numVars numSamples : ℕ)
    (sample1 sample2 : ParameterSample K) : Except VbdError (ℕ → ℕ → K) := do
  if !compactMode then throw .compactMode
  let allSamples := assignView (fun _ _ => 0) 0 numSamples sample1.entry
  if sample1.numCols ≠ numSamples then throw (.samples numSamples sample1.numCols)
  let allSamples := assignView allSamples numSamples numSamples sample2.entry
  if sample2.numCols ≠ numSamples then throw (.samples numSamples sample2.numCols)
  return (List.range numVars).foldl (addReplicate numSamples) allSamples

/-- `total_fn_vals[k][i][j]` of one response function, with the iterator of the responses. -/
def fillFnVals (numVars numSamples : ℕ) (values : ℕ → K) : ℕ × (ℕ → ℕ → K) :=
  (List.range (numVars + 2)).foldl (fun st i =>
    (List.range numSamples).foldl
      (fun st j => (st.1 + 1, setEntry st.2 i j (values st.1))) st) (0, fun _ _ => 0)

section

variable (numVars numSamples : ℕ) (fnVals : ℕ → ℕ → K)

/-- The mean over all replicates. -/
def overallMean : K :=
  (List.range numSamples).foldl
    (fun sum j => (List.range (numVars + 2)).foldl (fun sum i => sum + fnVals i j) sum) 0 /
    ((numSamples * (numVars + 2) : ℕ) : K)

/-- `total_norm_vals` -/
def normVals (i j : ℕ) : K := fnVals i j - overallMean numVars numSamples fnVals

/-- `mean_C` -/
def meanC : K :=
  ((List.range numSamples).foldl (fun sum j => sum + fnVals 1 j) 0 / numSamples +
    (List.range numSamples).foldl (fun sum j => sum + fnVals 0 j) 0 / numSamples) / 2

/-- `var_hatYC` -/
def varHatYC : K :=
  (List.range numSamples).foldl (fun sum j => sum + fnVals 1 j ^ 2)
    ((List.range numSamples).foldl (fun sum j => sum + fnVals 0 j ^ 2) 0) / (2 * numSamples) -
    meanC numSamples fnVals * meanC numSamples fnVals

/-- `indexSi[k][i]` -/
def indexSi (i : ℕ) : K :=
  (List.range numSamples).foldl (fun sumS j =>
    sumS + normVals numVars numSamples fnVals 0 j *
      (normVals numVars numSamples fnVals (i + 2) j - normVals numVars numSamples fnVals 1 j)) 0 /
    numSamples / varHatYC numSamples fnVals

/-- `indexTi[k][i]` -/
def indexTi (i : ℕ) : K :=
  (List.range numSamples).foldl (fun sumT j =>
    sumT + (normVals numVars numSamples fnVals (i + 2) j -
      normVals numVars numSamples fnVals 1 j) ^ 2) 0 /
    (2 * numSamples) / varHatYC numSamples fnVals

end

/-- The variance estimate and the indices of a response function. -/
structure VbdStats (K : Type) where
  var : K
  indexSi : ℕ → K
  indexTi : ℕ → K

/-- `compute_pick_and_freeze_vbd_stats`, for all response functions. -/
def computePickAndFreezeVbdStats (numVars numSamples : ℕ) (respSamples : List (ℕ → K)) :
    Except VbdError (ℕ → VbdStats K) :=
  if respSamples.length ≠ numSamples * (numVars + 2) then
    .error (.responses (numSamples * (numVars + 2)) respSamples.length)
  else .ok fun k =>
    let fnVals := (fillFnVals numVars numSamples fun r => (respSamples.getD r 0) k).2
    { var := varHatYC numSamples fnVals
      indexSi := indexSi numVars numSamples fnVals
      indexTi := indexTi numVars numSamples fnVals }

/-- The responses to the columns of a matrix, in evaluation order. -/
def evaluateColumns {numVars : ℕ} (response : (Fin numVars → K) → ℕ → K) (allSamples : ℕ → ℕ → K)
    (numCols : ℕ) : List (ℕ → K) :=
  (List.range numCols).map fun col => response fun row => allSamples row col

/-! ## The layout -/

section

variable {m : ℕ → ℕ → K} {i j row col numSamples start : ℕ} {numVars : ℕ}
  {sample1 sample2 : ParameterSample K}

omit [Field K] in
theorem setEntry_apply {x : K} : setEntry m i j x row col =
    if row = i ∧ col = j then x else m row col := by
  unfold setEntry
  rcases eq_or_ne row i with rfl | hrow
  · rw [Function.update_self]
    rcases eq_or_ne col j with rfl | hcol
    · simp
    · simp [hcol]
  · rw [Function.update_of_ne hrow, if_neg fun h => hrow h.1]

omit [Field K] in
/-- The row that is swapped in, up to `num` columns that lie before the replicate. -/
theorem foldl_setEntry {num : ℕ} (hnum : num ≤ start) :
    (List.range num).foldl (fun m j => setEntry m i (start + j) (view m 0 i j)) m row col =
      if row = i ∧ start ≤ col ∧ col < start + num then m i (col - start) else m row col := by
  have h := foldl_range_inv (fun m j => setEntry m i (start + j) (view m 0 i j)) m num
    (fun k m' => ∀ row col, m' row col =
      if row = i ∧ start ≤ col ∧ col < start + k then m i (col - start) else m row col)
    (fun row col => (if_neg (by omega)).symm) (fun k m' hk hm' row col => by
      rw [setEntry_apply]
      simp only [view, Nat.zero_add, hm']
      by_cases hcol : row = i ∧ col = start + k
      · obtain ⟨rfl, rfl⟩ := hcol
        rw [if_pos ⟨rfl, rfl⟩, if_neg (by omega), if_pos (by omega), Nat.add_sub_cancel_left]
      · rw [if_neg hcol]
        refine if_congr ?_ rfl rfl
        omega)
  exact h row col

omit [Field K] in
theorem addReplicate_apply : addReplicate numSamples m i row col =
    if (i + 2) * numSamples ≤ col ∧ col < (i + 2) * numSamples + numSamples then
      if row = i then m i (col - (i + 2) * numSamples)
      else m row (numSamples + (col - (i + 2) * numSamples))
    else m row col := by
  have hstart : numSamples ≤ (i + 2) * numSamples := Nat.le_mul_of_pos_left _ (by omega)
  unfold addReplicate
  rw [foldl_setEntry hstart]
  generalize (i + 2) * numSamples = start at hstart
  by_cases hcol : start ≤ col ∧ col < start + numSamples
  · rw [if_pos hcol]
    by_cases hrow : row = i
    · rw [if_pos ⟨hrow, hcol⟩, if_pos hrow, assignView, if_neg (by omega)]
    · rw [if_neg (by tauto), if_neg hrow, assignView, if_pos hcol]
      rfl
  · rw [if_neg hcol, if_neg (by tauto), assignView, if_neg hcol]

/-- The two samples side by side. -/
def baseSamples (numSamples : ℕ) (sample1 sample2 : ParameterSample K) : ℕ → ℕ → K :=
  assignView (assignView (fun _ _ => 0) 0 numSamples sample1.entry) numSamples numSamples
    sample2.entry

theorem baseSamples_first (hj : j < numSamples) :
    baseSamples numSamples sample1 sample2 row j = sample1.entry row j := by
  rw [baseSamples, assignView, if_neg (by omega), assignView, if_pos (by omega), Nat.sub_zero]

theorem baseSamples_second (hj : j < numSamples) :
    baseSamples numSamples sample1 sample2 row (numSamples + j) = sample2.entry row j := by
  rw [baseSamples, assignView, if_pos (by omega), Nat.add_sub_cancel_left]

theorem getVbdParameterSets_eq (h₁ : sample1.numCols = numSamples)
    (h₂ : sample2.numCols = numSamples) :
    getVbdParameterSets true numVars numSamples sample1 sample2 =
      .ok ((List.range numVars).foldl (addReplicate numSamples)
        (baseSamples numSamples sample1 sample2)) := by
  unfold getVbdParameterSets
  simp only [h₁, h₂, ne_eq, not_true_eq_false, if_false]
  rfl

variable (numSamples numVars m) in
omit [Field K] in
/-- The columns after some replicates: the samples, and of each replicate what it is for. -/
theorem foldl_addReplicate :
    (∀ row col, col < 2 * numSamples → (List.range numVars).foldl (addReplicate numSamples) m row col =
      m row col) ∧
    ∀ i < numVars, ∀ row j, j < numSamples →
      (List.range numVars).foldl (addReplicate numSamples) m row ((i + 2) * numSamples + j) =
        if row = i then m i j else m row (numSamples + j) := by
  refine foldl_range_inv _ m numVars (fun k m' => (∀ row col, col < 2 * numSamples →
      m' row col = m row col) ∧ ∀ i < k, ∀ row j, j < numSamples →
      m' row ((i + 2) * numSamples + j) = if row = i then m i j else m row (numSamples + j))
    ⟨fun _ _ _ => rfl, nofun⟩ (fun k m' _ hm' => ⟨fun row col hcol => ?_, fun i hi row j hj => ?_⟩)
  · have hstart : 2 * numSamples ≤ (k + 2) * numSamples := Nat.mul_le_mul_right _ (by omega)
    rw [addReplicate_apply, if_neg (by omega), hm'.1 row col hcol]
  · rw [addReplicate_apply]
    rcases Nat.lt_succ_iff_lt_or_eq.mp hi with hlt | rfl
    · have hmul : (i + 2) * numSamples + numSamples ≤ (k + 2) * numSamples := by
        rw [← Nat.succ_mul]
        exact Nat.mul_le_mul_right _ (by omega)
      rw [if_neg (by omega), hm'.2 i hlt row j hj]
    · rw [if_pos (by omega), Nat.add_sub_cancel_left, hm'.1 i j (by omega),
        hm'.1 row (numSamples + j) (by omega)]

/-- The points that the replicates are evaluated at. -/
def replicatePoint (sample1 sample2 : ParameterSample K) : ℕ → ℕ → Fin numVars → K
  | 0, j => fun row => sample1.entry row j
  | 1, j => fun row => sample2.entry row j
  | i + 2, j => fun row => if (row : ℕ) = i then sample1.entry row j else sample2.entry row j

/-- Column `j` of each replicate. -/
theorem column_getVbdParameterSets (hi : i < numVars + 2) (hj : j < numSamples) :
    (fun row : Fin numVars => (List.range numVars).foldl (addReplicate numSamples)
      (baseSamples numSamples sample1 sample2) row (i * numSamples + j)) =
      replicatePoint sample1 sample2 i j := by
  funext row
  obtain ⟨hbase, hrep⟩ :=
    foldl_addReplicate (baseSamples numSamples sample1 sample2) numSamples numVars
  match i with
  | 0 => rw [Nat.zero_mul, Nat.zero_add, hbase _ _ (by omega), baseSamples_first hj]; rfl
  | 1 => rw [Nat.one_mul, hbase _ _ (by omega), baseSamples_second hj]; rfl
  | i + 2 =>
    rw [hrep i (by omega) row j hj, baseSamples_second hj, baseSamples_first hj]
    simp only [replicatePoint]
    split_ifs with hrow
    · rw [hrow]
    · rfl

/-- The iterator reads the responses replicate by replicate. -/
theorem fillFnVals_eq (values : ℕ → K) (hi : i < numVars + 2) (hj : j < numSamples) :
    (fillFnVals numVars numSamples values).2 i j = values (i * numSamples + j) := by
  have h : (fillFnVals numVars numSamples values).1 = (numVars + 2) * numSamples ∧
      ∀ i' < numVars + 2, ∀ j' < numSamples,
        (fillFnVals numVars numSamples values).2 i' j' = values (i' * numSamples + j') := by
    refine foldl_range_inv _ _ (numVars + 2) (fun k (st : ℕ × (ℕ → ℕ → K)) =>
      st.1 = k * numSamples ∧ ∀ i' < k, ∀ j' < numSamples,
        st.2 i' j' = values (i' * numSamples + j')) ⟨(Nat.zero_mul _).symm, nofun⟩ ?_
    intro k st _ hst
    have hrow := foldl_range_inv
      (fun (st : ℕ × (ℕ → ℕ → K)) j => (st.1 + 1, setEntry st.2 k j (values st.1))) st numSamples
      (fun l st' => st'.1 = k * numSamples + l ∧
        (∀ i' < k, ∀ j' < numSamples, st'.2 i' j' = values (i' * numSamples + j')) ∧
        ∀ j' < l, st'.2 k j' = values (k * numSamples + j'))
      ⟨hst.1, hst.2, nofun⟩ (fun l st' hl hst' => by
        refine ⟨by rw [hst'.1]; rfl, fun i' hi' j' hj' => ?_, fun j' hj' => ?_⟩
        · dsimp only
          rw [setEntry_apply, if_neg (by omega), hst'.2.1 i' hi' j' hj']
        · dsimp only
          rw [setEntry_apply, hst'.1]
          by_cases hlast : j' = l
          · rw [if_pos ⟨rfl, hlast⟩, hlast]
          · rw [if_neg (by omega), hst'.2.2 j' (by omega)])
    refine ⟨hrow.1.trans (Nat.succ_mul _ _).symm, fun i' hi' j' hj' => ?_⟩
    rcases Nat.lt_succ_iff_lt_or_eq.mp hi' with hlt | rfl
    · exact hrow.2.1 i' hlt j' hj'
    · exact hrow.2.2 j' hj'
  exact h.2 i hi j hj

end

/-! ## The statistics -/

section

variable {numVars n : ℕ} {fv fv' : ℕ → ℕ → K} {i : ℕ} {a b : K}

theorem overallMean_eq : overallMean numVars n fv =
    (∑ j ∈ Finset.range n, ∑ i ∈ Finset.range (numVars + 2), fv i j) /
      ((n * (numVars + 2) : ℕ) : K) := by
  unfold overallMean
  simp only [foldl_range_add, zero_add]

theorem meanC_eq : meanC n fv =
    (∑ j ∈ Finset.range n, fv 0 j + ∑ j ∈ Finset.range n, fv 1 j) / (2 * n) := by
  unfold meanC
  simp only [foldl_range_add, zero_add]
  rw [← add_div, div_div, mul_comm (n : K), add_comm]

theorem varHatYC_eq_sub : varHatYC n fv =
    (∑ j ∈ Finset.range n, fv 0 j ^ 2 + ∑ j ∈ Finset.range n, fv 1 j ^ 2) / (2 * n) -
      meanC n fv ^ 2 := by
  unfold varHatYC
  simp only [foldl_range_add, zero_add]
  rw [pow_two]

theorem indexSi_eq : indexSi numVars n fv i =
    (∑ j ∈ Finset.range n, (fv 0 j - overallMean numVars n fv) * (fv (i + 2) j - fv 1 j)) / n /
      varHatYC n fv := by
  unfold indexSi normVals
  simp only [foldl_range_add, zero_add, sub_sub_sub_cancel_right]

theorem indexTi_eq : indexTi numVars n fv i =
    (∑ j ∈ Finset.range n, (fv (i + 2) j - fv 1 j) ^ 2) / (2 * n) / varHatYC n fv := by
  unfold indexTi normVals
  simp only [foldl_range_add, zero_add, sub_sub_sub_cancel_right]

/-- The variance of both samples together. -/
def pooledVariance (n : ℕ) (fv : ℕ → ℕ → K) : K :=
  (∑ j ∈ Finset.range n, (fv 0 j - meanC n fv) ^ 2 +
    ∑ j ∈ Finset.range n, (fv 1 j - meanC n fv) ^ 2) / (2 * n)

theorem varHatYC_eq [CharZero K] : varHatYC n fv = pooledVariance n fv := by
  rcases Nat.eq_zero_or_pos n with rfl | hn
  · simp [varHatYC_eq_sub, pooledVariance, meanC_eq]
  · have hn' : (2 * n : K) ≠ 0 := mul_ne_zero two_ne_zero (Nat.cast_ne_zero.mpr hn.ne')
    have hmean : ∑ j ∈ Finset.range n, fv 0 j + ∑ j ∈ Finset.range n, fv 1 j =
        2 * n * meanC n fv := by
      rw [meanC_eq, mul_div_cancel₀ _ hn']
    have hsq (r : ℕ) : ∑ j ∈ Finset.range n, (fv r j - meanC n fv) ^ 2 =
        ∑ j ∈ Finset.range n, fv r j ^ 2 - 2 * meanC n fv * ∑ j ∈ Finset.range n, fv r j +
          n * meanC n fv ^ 2 := by
      rw [Finset.mul_sum, ← Finset.sum_sub_distrib, ← nsmul_eq_mul, ← Finset.card_range n,
        ← Finset.sum_const, Finset.card_range, ← Finset.sum_add_distrib]
      exact Finset.sum_congr rfl fun j _ => by ring
    have hsum : ∑ j ∈ Finset.range n, (fv 0 j - meanC n fv) ^ 2 +
        ∑ j ∈ Finset.range n, (fv 1 j - meanC n fv) ^ 2 =
        (∑ j ∈ Finset.range n, fv 0 j ^ 2 + ∑ j ∈ Finset.range n, fv 1 j ^ 2) -
          2 * n * meanC n fv ^ 2 := by
      rw [hsq, hsq]
      linear_combination (-2 * meanC n fv) * hmean
    rw [varHatYC_eq_sub, pooledVariance, hsum, sub_div, mul_div_cancel_left₀ _ hn']

/-- The statistics only read the values of the replicates. -/
theorem stats_congr (h : ∀ i < numVars + 2, ∀ j < n, fv i j = fv' i j) (hi : i < numVars) :
    varHatYC n fv = varHatYC n fv' ∧ indexSi numVars n fv i = indexSi numVars n fv' i ∧
      indexTi numVars n fv i = indexTi numVars n fv' i := by
  have hsum (φ : ℕ → (ℕ → K) → K) (hφ : ∀ j < n, φ j (fv · j) = φ j (fv' · j)) :
      ∑ j ∈ Finset.range n, φ j (fv · j) = ∑ j ∈ Finset.range n, φ j (fv' · j) :=
    Finset.sum_congr rfl fun j hj => hφ j (Finset.mem_range.mp hj)
  have h₀ (j : ℕ) (hj : j < n) : fv 0 j = fv' 0 j := h 0 (by omega) j hj
  have h₁ (j : ℕ) (hj : j < n) : fv 1 j = fv' 1 j := h 1 (by omega) j hj
  have hi₂ (j : ℕ) (hj : j < n) : fv (i + 2) j = fv' (i + 2) j := h (i + 2) (by omega) j hj
  have hmean : meanC n fv = meanC n fv' := by
    rw [meanC_eq, meanC_eq, hsum (fun _ v => v 0) h₀, hsum (fun _ v => v 1) h₁]
  have hvar : varHatYC n fv = varHatYC n fv' := by
    rw [varHatYC_eq_sub, varHatYC_eq_sub, hmean,
      hsum (fun _ v => v 0 ^ 2) fun j hj => by simp only [h₀ j hj],
      hsum (fun _ v => v 1 ^ 2) fun j hj => by simp only [h₁ j hj]]
  have hall : overallMean numVars n fv = overallMean numVars n fv' := by
    rw [overallMean_eq, overallMean_eq]
    congr 1
    exact hsum (fun _ v => ∑ i ∈ Finset.range (numVars + 2), v i) fun j hj =>
      Finset.sum_congr rfl fun i hi => h i (Finset.mem_range.mp hi) j hj
  refine ⟨hvar, ?_, ?_⟩
  · rw [indexSi_eq, indexSi_eq, hvar, hall,
      hsum (fun _ v => (v 0 - overallMean numVars n fv') * (v (i + 2) - v 1)) fun j hj => by
        simp only [h₀ j hj, h₁ j hj, hi₂ j hj]]
  · rw [indexTi_eq, indexTi_eq, hvar, hsum (fun _ v => (v (i + 2) - v 1) ^ 2) fun j hj => by
      simp only [h₁ j hj, hi₂ j hj]]

/-- The indices of `a * response + b`. -/
theorem stats_affine [CharZero K] (ha : a ≠ 0) (hn : n ≠ 0) :
    indexSi numVars n (fun i j => a * fv i j + b) i = indexSi numVars n fv i ∧
      indexTi numVars n (fun i j => a * fv i j + b) i = indexTi numVars n fv i := by
  have hn' : (n : K) ≠ 0 := Nat.cast_ne_zero.mpr hn
  have hcells : ((n * (numVars + 2) : ℕ) : K) ≠ 0 :=
    Nat.cast_ne_zero.mpr (Nat.mul_ne_zero hn (by omega))
  have hmean : meanC n (fun i j => a * fv i j + b) = a * meanC n fv + b := by
    rw [meanC_eq, meanC_eq]
    simp only [Finset.sum_add_distrib, ← Finset.mul_sum, Finset.sum_const, Finset.card_range,
      nsmul_eq_mul]
    field_simp
    ring
  have hvar : varHatYC n (fun i j => a * fv i j + b) = a ^ 2 * varHatYC n fv := by
    rw [varHatYC_eq, varHatYC_eq, pooledVariance, pooledVariance, hmean]
    have hsq (r j : ℕ) : (a * fv r j + b - (a * meanC n fv + b)) ^ 2 =
        a ^ 2 * (fv r j - meanC n fv) ^ 2 := by ring
    simp only [hsq, ← Finset.mul_sum]
    ring
  have hall : overallMean numVars n (fun i j => a * fv i j + b) =
      a * overallMean numVars n fv + b := by
    rw [overallMean_eq, overallMean_eq]
    simp only [Finset.sum_add_distrib, ← Finset.mul_sum, Finset.sum_const, Finset.card_range,
      nsmul_eq_mul]
    rw [add_div, mul_div_assoc]
    congr 1
    rw [div_eq_iff hcells]
    push_cast
    ring
  have ha2 : a ^ 2 ≠ 0 := pow_ne_zero 2 ha
  constructor
  · rw [indexSi_eq, indexSi_eq, hvar, hall]
    have hterm (j : ℕ) : (a * fv 0 j + b - (a * overallMean numVars n fv + b)) *
        (a * fv (i + 2) j + b - (a * fv 1 j + b)) =
        a ^ 2 * ((fv 0 j - overallMean numVars n fv) * (fv (i + 2) j - fv 1 j)) := by ring
    simp only [hterm, ← Finset.mul_sum]
    rw [mul_div_assoc, mul_div_mul_left _ _ ha2]
  · rw [indexTi_eq, indexTi_eq, hvar]
    have hterm (j : ℕ) : (a * fv (i + 2) j + b - (a * fv 1 j + b)) ^ 2 =
        a ^ 2 * (fv (i + 2) j - fv 1 j) ^ 2 := by ring
    simp only [hterm, ← Finset.mul_sum]
    rw [mul_div_assoc, mul_div_mul_left _ _ ha2]

end

/-! ## What the indices say -/

section

variable {numVars numSamples : ℕ} {sample1 sample2 : ParameterSample K}
  {response : (Fin numVars → K) → ℕ → K} {k : ℕ}

/-- The function does not depend on a variable. -/
def Ignores (f : (Fin numVars → K) → K) (i : Fin numVars) : Prop :=
  ∀ x y : Fin numVars → K, (∀ row, row ≠ i → x row = y row) → f x = f y

/-- The function is one of a single variable. -/
def DependsOnlyOn (f : (Fin numVars → K) → K) (i : Fin numVars) : Prop :=
  ∀ x y : Fin numVars → K, x i = y i → f x = f y

/-- The responses to the replicates. -/
def replicateVals (f : (Fin numVars → K) → K) (sample1 sample2 : ParameterSample K) (i j : ℕ) : K :=
  f (replicatePoint sample1 sample2 i j)

variable (numSamples sample1 sample2 response) in
/-- The statistics of the responses to the columns are those of the replicates. -/
theorem computeStats_eq : ∃ stats, computePickAndFreezeVbdStats numVars numSamples
      (evaluateColumns response ((List.range numVars).foldl (addReplicate numSamples)
        (baseSamples numSamples sample1 sample2)) ((numVars + 2) * numSamples)) = .ok stats ∧
    ∀ (k : ℕ) (i : Fin numVars),
      (stats k).var =
        varHatYC numSamples (replicateVals (response · k) sample1 sample2) ∧
      (stats k).indexSi i =
        indexSi numVars numSamples (replicateVals (response · k) sample1 sample2) i ∧
      (stats k).indexTi i =
        indexTi numVars numSamples (replicateVals (response · k) sample1 sample2) i := by
  have hlen : (evaluateColumns response ((List.range numVars).foldl (addReplicate numSamples)
      (baseSamples numSamples sample1 sample2)) ((numVars + 2) * numSamples)).length =
      numSamples * (numVars + 2) := by
    rw [evaluateColumns, List.length_map, List.length_range, Nat.mul_comm]
  refine ⟨_, by rw [computePickAndFreezeVbdStats, if_neg (not_not.mpr hlen)], fun k i => ?_⟩
  refine stats_congr (fun r hr j hj => ?_) i.isLt
  have hcol : r * numSamples + j < (numVars + 2) * numSamples := by
    have : (r + 1) * numSamples ≤ (numVars + 2) * numSamples := Nat.mul_le_mul_right _ hr
    rw [Nat.succ_mul] at this
    omega
  rw [fillFnVals_eq _ hr hj, evaluateColumns, List.getD_eq_getElem _ _ (by simpa using hcol),
    List.getElem_map, List.getElem_range, column_getVbdParameterSets hr hj]
  rfl

/-- The pick-and-freeze indices are exact on what a function ignores, nonnegative, known for a
function of one variable, and invariant under affine maps of the response. -/
theorem pickAndFreeze_exact [LinearOrder K] [IsStrictOrderedRing K] (numVars numSamples : ℕ)
    (sample1 sample2 : ParameterSample K) (response : (Fin numVars → K) → ℕ → K)
    (h₁ : sample1.numCols = numSamples) (h₂ : sample2.numCols = numSamples) :
    ∃ allSamples stats,
      getVbdParameterSets true numVars numSamples sample1 sample2 = .ok allSamples ∧
      computePickAndFreezeVbdStats numVars numSamples
        (evaluateColumns response allSamples ((numVars + 2) * numSamples)) = .ok stats ∧
      ∀ (k : ℕ) (i : Fin numVars), (stats k).var ≠ 0 →
        (stats k).var =
          pooledVariance numSamples (replicateVals (response · k) sample1 sample2) ∧
        (Ignores (response · k) i → (stats k).indexSi i = 0 ∧ (stats k).indexTi i = 0) ∧
        0 ≤ (stats k).indexTi i ∧
        (DependsOnlyOn (response · k) i → (stats k).indexTi i =
          (∑ j ∈ Finset.range numSamples, (response (fun row => sample1.entry row j) k -
            response (fun row => sample2.entry row j) k) ^ 2) / numSamples /
          (2 * (stats k).var)) ∧
        ∀ a b : K, a ≠ 0 → ∃ stats', computePickAndFreezeVbdStats numVars numSamples
          (evaluateColumns (fun x k => a * response x k + b) allSamples
            ((numVars + 2) * numSamples)) = .ok stats' ∧
          (stats' k).indexSi i = (stats k).indexSi i ∧
          (stats' k).indexTi i = (stats k).indexTi i := by
  obtain ⟨stats, hstats, heq⟩ := computeStats_eq numSamples sample1 sample2 response
  refine ⟨_, stats, getVbdParameterSets_eq h₁ h₂, hstats, fun k i hvar => ?_⟩
  obtain ⟨hv, hS, hT⟩ := heq k i
  rw [hv] at hvar
  rw [hv, hS, hT]
  generalize hfv : replicateVals (response · k) sample1 sample2 = fv at hvar
  have hA (j : ℕ) : fv 0 j = response (fun row => sample1.entry row j) k := hfv ▸ rfl
  have hB (j : ℕ) : fv 1 j = response (fun row => sample2.entry row j) k := hfv ▸ rfl
  have hn : numSamples ≠ 0 := by
    rintro rfl
    exact hvar (by simp [varHatYC_eq_sub, meanC_eq])
  refine ⟨varHatYC_eq, fun hignore => ?_, ?_, fun honly => ?_, fun a b ha => ?_⟩
  · have hsame (j : ℕ) : fv (i + 2) j - fv 1 j = 0 := by
      rw [← hfv]
      refine sub_eq_zero.mpr (hignore _ _ fun row hrow => ?_)
      exact if_neg fun h => hrow (Fin.ext h)
    rw [indexSi_eq, indexTi_eq]
    simp [hsame]
  · rw [indexTi_eq, varHatYC_eq, pooledVariance]
    positivity
  · have hswap (j : ℕ) : fv (i + 2) j = fv 0 j := by
      rw [← hfv]
      exact honly _ _ (if_pos rfl)
    rw [indexTi_eq]
    simp only [hswap, hA, hB]
    rw [div_div, div_div]
    congr 1
    ring
  · obtain ⟨stats', hstats', heq'⟩ :=
      computeStats_eq numSamples sample1 sample2 fun x k => a * response x k + b
    obtain ⟨-, hS', hT'⟩ := heq' k i
    refine ⟨stats', hstats', ?_⟩
    rw [hS', hT', ← hfv]
    exact stats_affine ha hn

/-- Two samples of two variables. -/
def firstSample : ParameterSample ℚ := ⟨2, fun row j => ((row + j : ℕ) : ℚ)⟩

def secondSample : ParameterSample ℚ := ⟨2, fun row j => ((row * j : ℕ) : ℚ)⟩

/-- The first variable as a response: the second one has no influence. -/
theorem pickAndFreeze_firstVariable :
    ∃ allSamples stats, getVbdParameterSets true 2 2 firstSample secondSample = .ok allSamples ∧
      computePickAndFreezeVbdStats 2 2
        (evaluateColumns (fun (x : Fin 2 → ℚ) _ => x 0) allSamples 8) = .ok stats ∧
      (stats 0).indexSi 1 = 0 ∧ (stats 0).indexTi 1 = 0 := by
  obtain ⟨allSamples, stats, hsets, hstats, hexact⟩ := pickAndFreeze_exact 2 2 firstSample
    secondSample (fun (x : Fin 2 → ℚ) _ => x 0) rfl rfl
  refine ⟨allSamples, stats, hsets, hstats, (hexact 0 1 ?_).2.1 fun x y h => h 0 (by decide)⟩
  have hbase : firstSample.numCols = 2 ∧ secondSample.numCols = 2 := ⟨rfl, rfl⟩
  obtain rfl := Except.ok.inj ((getVbdParameterSets_eq hbase.1 hbase.2).symm.trans hsets)
  rw [computePickAndFreezeVbdStats, if_neg (by decide)] at hstats
  obtain rfl := Except.ok.inj hstats
  decide +kernel

end

end Dakota.Sensitivity
