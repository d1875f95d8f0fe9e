import Dakota.LowDiscrepancy.PointSequence
import Dakota.Lib.Scatter

/-!
# Refinement of low-discrepancy samples

`NonDLowDiscrepancySampling::get_parameter_sets` (`src/src/NonDLowDiscrepancySampling.cpp`) for the
batches of `NonDLHSSampling::pre_run` (`src/src/NonDLHSSampling.cpp`). Each batch is a view of some
columns of `allSamples`. An abort, and a write outside of `allSamples`, are errors.

* `preRun_eq`: which runs have no errors, and the matrix that they leave.
* `settled_apply`: a column has its point, scaled again by all batches after its own in the uniform
  modes.
* `reproduces_iff`: the batches reproduce the samples of one batch exactly where this repeated
  scaling, a repeated randomization and the column order of the sequence do not change a sample.
-/

namespace Dakota.LowDiscrepancy

inductive SamplingVarsMode where
  | design
  | uncertain
  | uncertainUniform
  | aleatoryUncertain
  | aleatoryUncertainUniform
  | epistemicUncertain
  | epistemicUncertainUniform
  | state
  | active
  | activeUniform
  | all
  | allUniform
deriving DecidableEq

inductive VariablesView where
  | emptyView
  | relaxedAll
  | mixedAll
  | relaxedDesign
  | relaxedUncertain
  | relaxedAleatoryUncertain
  | relaxedEpistemicUncertain
  | relaxedState
  | mixedDesign
  | mixedUncertain
  | mixedAleatoryUncertain
  | mixedEpistemicUncertain
  | mixedState
deriving DecidableEq

/-- The modes of the second branch of `get_parameter_sets`. -/
def SamplingVarsMode.isUniform : SamplingVarsMode → Bool
  | .activeUniform | .allUniform | .uncertainUniform | .aleatoryUncertainUniform
  | .epistemicUncertainUniform => true
  | _ => false

/-- What is read of the model. -/
structure SamplingModel (K : Type) (d : ℕ) where
  /-- `check_support` finds no other type of variable. -/
  supported : Bool
  view : VariablesView
  continuousLowerBnds : ℕ → K
  continuousUpperBnds : ℕ → K
  allContinuousLowerBnds : ℕ → K
  allContinuousUpperBnds : ℕ → K
  /-- `mode_counts` -/
  startAcv : ℕ
  numAcv : ℕ
  /-- `transform_samples`, from standard uniform variables on `[-1, 1]` to those of the model. -/
  transformSample : (Fin d → K) → Fin d → K

inductive SamplingError where
  | unsupported
  | noActiveContinuous
  | sequence (e : SequenceError)
  /-- A write outside of the sample matrix. -/
  | outside

structure SampleMatrix (K : Type) (d : ℕ) where
  numRows : ℕ
  numCols : ℕ
  col : ℕ → Fin d → K

structure Sampler (σ K : Type) (d : ℕ) where
  sequence : σ
  colPtr : ℕ
  allSamples : SampleMatrix K d

/-- `numSamples` and `refineSamples`. All counts and their sum are `int`s. -/
structure SampleCounts where
  numSamples : ℕ
  refineSamples : List ℕ
  total_lt : numSamples + refineSamples.sum < 2 ^ 31

variable {σ K : Type} [Field K] {d : ℕ}

/-- A column of `scale`. -/
def scaleColumn (lower upper : ℕ → K) (p : Fin d → K) : Fin d → K := fun row =>
  p row * (upper row - lower row) + lower row

/-- A column of `transform`. -/
def SamplingModel.transformColumn (model : SamplingModel K d) (p : Fin d → K) : Fin d → K :=
  model.transformSample (scaleColumn (fun _ => -1) (fun _ => 1) p)

/-- The bounds that a uniform mode samples within. -/
def SamplingModel.uniformBounds (model : SamplingModel K d) (mode : SamplingVarsMode) :
    Except SamplingError ((ℕ → K) × (ℕ → K)) :=
  if mode = .activeUniform ∨
      (mode = .allUniform ∧ (model.view = .relaxedAll ∨ model.view = .mixedAll)) ∨
      (mode = .uncertainUniform ∧
        (model.view = .relaxedUncertain ∨ model.view = .mixedUncertain)) ∨
      (mode = .aleatoryUncertainUniform ∧
        (model.view = .relaxedAleatoryUncertain ∨ model.view = .mixedAleatoryUncertain)) ∨
      (mode = .epistemicUncertainUniform ∧
        (model.view = .relaxedEpistemicUncertain ∨ model.view = .mixedEpistemicUncertain)) then
    .ok (model.continuousLowerBnds, model.continuousUpperBnds)
  else if mode = .allUniform then
    .ok (model.allContinuousLowerBnds, model.allContinuousUpperBnds)
  else if model.numAcv = 0 then .error .noActiveContinuous
  else .ok (fun i => model.allContinuousLowerBnds (model.startAcv + i),
    fun i => model.allContinuousUpperBnds (model.startAcv + i))

namespace SampleMatrix

/-- The columns from `start` on, each with a function applied. -/
def mapColumns (f : (Fin d → K) → Fin d → K) (start num : ℕ) (m : SampleMatrix K d) :
    SampleMatrix K d :=
  { m with col := fun x => if start ≤ x ∧ x < start + num then f (m.col x) else m.col x }

/-- The writes to a view of the columns from `start` on. -/
def storePoints (start : ℕ) (writes : List (ℤ × (ℕ → K))) (m : SampleMatrix K d) :
    Except SamplingError (SampleMatrix K d) :=
  writes.foldlM (fun m w =>
    let x : ℤ := start + w.1
    if 0 ≤ x ∧ x < m.numCols then
      .ok { m with col := Function.update m.col x.toNat fun row => w.2 row }
    else .error .outside) m

/-- `shape`, where the dimensions are not those wanted. -/
def shaped (m : SampleMatrix K d) (numCols : ℕ) : SampleMatrix K d :=
  if m.numRows ≠ d ∨ m.numCols ≠ numCols then ⟨d, numCols, fun _ _ => 0⟩ else m

end SampleMatrix

section

variable (seq : PointSequence σ K) (model : SamplingModel K d) (mode : SamplingVarsMode)
  (backfillDuplicates : Bool)

/-- The points of a batch, in the columns from `start` on. -/
def storeBatch (s : σ) (colPtr numSamples start : ℕ) (m : SampleMatrix K d) :
    Except SamplingError (SampleMatrix K d) :=
  match seq.getPoints s colPtr (colPtr + numSamples) d numSamples with
  | .ok writes => m.storePoints start writes
  | .error e => .error (.sequence e)

/-- `get_parameter_sets(model, num_samples, sample_matrix)`, for the view of `allSamples` from column
`start` on. -/
def getParameterSets (numSamples start : ℕ) (s : Sampler σ K d) :
    Except SamplingError (Sampler σ K d) := do
  if !model.supported then throw .unsupported
  let colPtr :=
    if s.allSamples.numCols ≠ numSamples then s.colPtr + numSamples else s.colPtr
  if mode.isUniform then
    let bnds ← model.uniformBounds mode
    let m ← storeBatch seq s.sequence s.colPtr numSamples start s.allSamples
    -- the call is `scale(.., allSamples)`
    return ⟨s.sequence, colPtr, m.mapColumns (scaleColumn bnds.1 bnds.2) 0 m.numCols⟩
  else
    let sequence := if backfillDuplicates then seq.randomize s.sequence else s.sequence
    let m ← storeBatch seq sequence s.colPtr numSamples start s.allSamples
    return ⟨sequence, colPtr, m.mapColumns model.transformColumn start numSamples⟩

/-- The loop of `pre_run` over the batches from column `start` on. -/
def runBatches : List ℕ → ℕ → Sampler σ K d → Except SamplingError (Sampler σ K d)
  | [], _, s => .ok s
  | newSamples :: rest, previousSamples, s => do
    let s ← getParameterSets seq model mode backfillDuplicates newSamples previousSamples s
    runBatches rest (previousSamples + newSamples) s

/-- `pre_run`, with the numbers of samples of all batches. -/
def preRun (samplesVec : List ℕ) (s : Sampler σ K d) : Except SamplingError (Sampler σ K d) :=
  runBatches seq model mode backfillDuplicates samplesVec 0
    { s with allSamples := s.allSamples.shaped samplesVec.sum }

end

/-- The samples of a run, if it ends without errors. -/
def samplesOf (r : Except SamplingError (Sampler σ K d)) : Option (List (Fin d → K)) :=
  r.toOption.map fun s => (List.range s.allSamples.numCols).map s.allSamples.col

/-! ## A batch -/

theorem toOption_bind {ε α β : Type} {x : Except ε α} {f : α → Except ε β} :
    (x >>= f).toOption = x.toOption.bind fun a => (f a).toOption := by
  cases x <;> rfl

variable {seq : PointSequence σ K} {model : SamplingModel K d} {mode : SamplingVarsMode}
  {backfillDuplicates : Bool}

omit [Field K] in
/-- Writes inside the matrix, as assignments to its columns. -/
theorem storePoints_eq {start : ℕ} {writes : List (ℤ × (ℕ → K))} {m : SampleMatrix K d} :
    (m.storePoints start writes).toOption =
      if ∀ w ∈ writes, 0 ≤ start + w.1 ∧ start + w.1 < m.numCols then
        some { m with col := scatter m.col (writes.map fun w =>
          (((start : ℤ) + w.1).toNat, fun row : Fin d => w.2 row)) }
      else none := by
  induction writes generalizing m with
  | nil => simp [SampleMatrix.storePoints, scatter]; rfl
  | cons w writes ih =>
    unfold SampleMatrix.storePoints at ih ⊢
    rw [List.foldlM_cons, toOption_bind]
    by_cases hw : 0 ≤ start + w.1 ∧ start + w.1 < m.numCols
    · simp only [if_pos hw]
      refine ih.trans ?_
      refine if_congr ?_ rfl rfl
      simp [hw]
    · simp only [if_neg hw]
      rw [if_neg fun h => hw (h w List.mem_cons_self)]
      rfl

/-- The columns after the points of a batch are stored. -/
def placed (seq : PointSequence σ K) (s : σ) (numSamples start : ℕ) (col : ℕ → Fin d → K) :
    ℕ → Fin d → K :=
  scatter col ((List.range' start numSamples).map fun i =>
    (seq.place i, fun row : Fin d => seq.point s (seq.place i) row))

omit [Field K] in
theorem placed_place {s : σ} {numSamples start i : ℕ} {col : ℕ → Fin d → K} (h₁ : start ≤ i)
    (h₂ : i < start + numSamples) :
    placed seq s numSamples start col (seq.place i) =
      fun row : Fin d => seq.point s (seq.place i) row := by
  refine scatter_of_mem ?_ fun y hy => ?_
  · exact List.mem_map.mpr ⟨i, List.mem_range'_1.mpr ⟨h₁, h₂⟩, rfl⟩
  · obtain ⟨j, -, heq⟩ := List.mem_map.mp hy
    obtain ⟨hplace, rfl⟩ := Prod.mk.inj heq
    rw [hplace]

omit [Field K] in
theorem placed_of_lt {s : σ} {numSamples start i : ℕ} {col : ℕ → Fin d → K} (h : i < start) :
    placed seq s numSamples start col (seq.place i) = col (seq.place i) := by
  refine scatter_of_notMem fun hmem => ?_
  rw [List.map_map] at hmem
  obtain ⟨j, hj, heq⟩ := List.mem_map.mp hmem
  have := seq.place_injective heq
  have := (List.mem_range'_1.mp hj).1
  omega

omit [Field K] in
/-- A batch at its place in the sequence, or an empty one. -/
theorem storeBatch_eq {s : σ} {colPtr numSamples start : ℕ} {m : SampleMatrix K d}
    (hptr : colPtr = start ∨ numSamples = 0) (hmax : colPtr + numSamples ≤ 2 ^ seq.mMax)
    (hd : d ≤ seq.dMax) :
    (storeBatch seq s colPtr numSamples start m).toOption =
      if seq.validSize numSamples ∧
          ∀ i, start ≤ i → i < start + numSamples → seq.place i < m.numCols then
        some { m with col := placed seq s numSamples start m.col }
      else none := by
  have hsizes : checkSizes seq.mMax seq.dMax colPtr (colPtr + numSamples) d numSamples = .ok () := by
    unfold checkSizes
    rw [if_neg (Nat.not_lt.mpr hmax), if_neg (Nat.not_lt.mpr hd), if_neg (by omega)]
  unfold storeBatch PointSequence.getPoints
  rw [hsizes]
  show (match seq.unsafeGetPoints s colPtr (colPtr + numSamples) numSamples with
    | .ok writes => m.storePoints start writes
    | .error e => .error (.sequence e)).toOption = _
  unfold PointSequence.unsafeGetPoints
  by_cases hvalid : seq.validSize numSamples = true
  · rw [if_pos hvalid, Nat.add_sub_cancel_left]
    show (m.storePoints start _).toOption = _
    rw [storePoints_eq]
    have hrange : List.range' colPtr numSamples = List.range' start numSamples := by
      rcases hptr with rfl | rfl <;> rfl
    have hwrites : ((List.range' colPtr numSamples).map fun i =>
          ((seq.place i : ℤ) - colPtr, seq.point s (seq.place i))) =
        (List.range' start numSamples).map fun i =>
          ((seq.place i : ℤ) - start, seq.point s (seq.place i)) := by
      rcases hptr with rfl | rfl <;> rfl
    rw [hwrites]
    refine if_congr ?_ ?_ rfl
    · rw [and_iff_right hvalid]
      rw [List.forall_mem_map]
      simp only [List.mem_range'_1, and_imp]
      refine forall₃_congr fun i h₁ h₂ => ?_
      omega
    · rw [placed, List.map_map]
      congr 3
      refine List.map_congr_left fun i hi => ?_
      refine Prod.ext ?_ rfl
      show ((start : ℤ) + ((seq.place i : ℤ) - start)).toNat = seq.place i
      omega
  · rw [if_neg hvalid, if_neg fun h => hvalid h.1]
    rfl

/-- The checks that do not depend on the batches. -/
structure Feasible (seq : PointSequence σ K) (model : SamplingModel K d) (mode : SamplingVarsMode)
    (total : ℕ) : Prop where
  supported : model.supported = true
  bounds : mode.isUniform = true → ∃ bnds, model.uniformBounds mode = .ok bnds
  dimension : d ≤ seq.dMax
  points : total ≤ 2 ^ seq.mMax

/-- The state of the sequence for a batch. -/
def batchSequence (seq : PointSequence σ K) (mode : SamplingVarsMode) (backfillDuplicates : Bool)
    (s : σ) : σ :=
  if !mode.isUniform && backfillDuplicates then seq.randomize s else s

/-- The function that takes a point of the sequence to a sample. -/
def columnMap (model : SamplingModel K d) (mode : SamplingVarsMode) : (Fin d → K) → Fin d → K :=
  if mode.isUniform then
    match model.uniformBounds mode with
    | .ok bnds => scaleColumn bnds.1 bnds.2
    | .error _ => id
  else model.transformColumn

/-- The columns that a batch maps: all of them in a uniform mode. -/
def Mapped (mode : SamplingVarsMode) (numCols start num x : ℕ) : Prop :=
  if mode.isUniform then x < numCols else start ≤ x ∧ x < start + num

instance (mode : SamplingVarsMode) (numCols start num x : ℕ) :
    Decidable (Mapped mode numCols start num x) := by
  unfold Mapped
  infer_instance

/-- The columns after a batch. -/
def batchCols (seq : PointSequence σ K) (model : SamplingModel K d) (mode : SamplingVarsMode)
    (s : σ) (numCols numSamples start : ℕ) (col : ℕ → Fin d → K) : ℕ → Fin d → K := fun x =>
  if Mapped mode numCols start numSamples x then
    columnMap model mode (placed seq s numSamples start col x)
  else placed seq s numSamples start col x

theorem columnMap_uniform {bnds : (ℕ → K) × (ℕ → K)} (hmode : mode.isUniform = true)
    (hbnds : model.uniformBounds mode = .ok bnds) :
    columnMap model mode = scaleColumn bnds.1 bnds.2 := by
  unfold columnMap
  rw [if_pos hmode, hbnds]

theorem columnMap_native (hmode : mode.isUniform = false) :
    columnMap model mode = model.transformColumn :=
  if_neg (by rw [hmode]; exact Bool.false_ne_true)

theorem mapped_uniform {numCols start num x : ℕ} (hmode : mode.isUniform = true) :
    Mapped mode numCols start num x ↔ x < numCols := by
  unfold Mapped
  rw [if_pos hmode]

theorem mapped_native {numCols start num x : ℕ} (hmode : mode.isUniform = false) :
    Mapped mode numCols start num x ↔ start ≤ x ∧ x < start + num := by
  unfold Mapped
  rw [if_neg (by rw [hmode]; exact Bool.false_ne_true)]

omit [Field K] in
theorem batchSequence_uniform {s : σ} (hmode : mode.isUniform = true) :
    batchSequence seq mode backfillDuplicates s = s := by
  unfold batchSequence
  rw [hmode]
  rfl

omit [Field K] in
variable (seq) in
theorem batchSequence_native {s : σ} (hmode : mode.isUniform = false) :
    batchSequence seq mode backfillDuplicates s =
      if backfillDuplicates then seq.randomize s else s := by
  unfold batchSequence
  rw [hmode]
  rfl

theorem getParameterSets_eq {total numSamples start : ℕ} {s : Sampler σ K d}
    (h : Feasible seq model mode total) (hptr : s.colPtr = start ∨ numSamples = 0)
    (hmax : s.colPtr + numSamples ≤ 2 ^ seq.mMax) :
    (getParameterSets seq model mode backfillDuplicates numSamples start s).toOption =
      if seq.validSize numSamples ∧
          ∀ i, start ≤ i → i < start + numSamples → seq.place i < s.allSamples.numCols then
        some {
          sequence := batchSequence seq mode backfillDuplicates s.sequence
          colPtr := if s.allSamples.numCols ≠ numSamples then s.colPtr + numSamples else s.colPtr
          allSamples := { s.allSamples with
            col := batchCols seq model mode (batchSequence seq mode backfillDuplicates s.sequence)
              s.allSamples.numCols numSamples start s.allSamples.col } }
      else none := by
  have hstore (q : σ) := storeBatch_eq (s := q) (m := s.allSamples) hptr hmax h.dimension
  unfold getParameterSets
  rw [h.supported]
  cases hmode : mode.isUniform with
  | true =>
    obtain ⟨bnds, hbnds⟩ := h.bounds hmode
    rw [hbnds, batchSequence_uniform hmode]
    show (storeBatch seq s.sequence s.colPtr numSamples start s.allSamples >>= fun m =>
      Except.ok _).toOption = _
    rw [toOption_bind, hstore]
    by_cases hok : seq.validSize numSamples ∧
        ∀ i, start ≤ i → i < start + numSamples → seq.place i < s.allSamples.numCols
    · rw [if_pos hok, if_pos hok]
      refine congrArg (fun col => some (Sampler.mk _ _ (SampleMatrix.mk _ _ col))) ?_
      funext x
      rw [batchCols, columnMap_uniform hmode hbnds]
      refine if_congr ?_ rfl rfl
      rw [mapped_uniform hmode, Nat.zero_add]
      exact and_iff_right (Nat.zero_le x)
    · rw [if_neg hok, if_neg hok]
      rfl
  | false =>
    rw [← batchSequence_native seq (s := s.sequence) hmode]
    show (storeBatch seq (batchSequence seq mode backfillDuplicates s.sequence) s.colPtr numSamples
      start s.allSamples >>= fun m => Except.ok _).toOption = _
    rw [toOption_bind, hstore]
    by_cases hok : seq.validSize numSamples ∧
        ∀ i, start ≤ i → i < start + numSamples → seq.place i < s.allSamples.numCols
    · rw [if_pos hok, if_pos hok]
      refine congrArg (fun col => some (Sampler.mk _ _ (SampleMatrix.mk _ _ col))) ?_
      funext x
      rw [batchCols, columnMap_native hmode]
      exact if_congr (mapped_native hmode).symm rfl rfl
    · rw [if_neg hok, if_neg hok]
      rfl

/-! ## Runs -/

/-- The columns after some batches. -/
def settled (seq : PointSequence σ K) (model : SamplingModel K d) (mode : SamplingVarsMode)
    (backfillDuplicates : Bool) (numCols : ℕ) : List ℕ → ℕ → σ → (ℕ → Fin d → K) → ℕ → Fin d → K
  | [], _, _, col => col
  | newSamples :: rest, start, s, col =>
    settled seq model mode backfillDuplicates numCols rest (start + newSamples)
      (batchSequence seq mode backfillDuplicates s)
      (batchCols seq model mode (batchSequence seq mode backfillDuplicates s) numCols newSamples
        start col)

/-- The column pointer is the first column of the next batch, or only empty batches follow: it does
not advance for a batch of all samples. -/
def PointerOk (colPtr start : ℕ) (samplesVec : List ℕ) : Prop :=
  colPtr = start ∨ (colPtr ≤ start ∧ ∀ n ∈ samplesVec, n = 0)

theorem PointerOk.next {colPtr start n : ℕ} {rest : List ℕ} {numCols : ℕ}
    (h : PointerOk colPtr start (n :: rest)) (hsum : start + (n :: rest).sum = numCols) :
    PointerOk (if numCols ≠ n then colPtr + n else colPtr) (start + n) rest := by
  rw [List.sum_cons] at hsum
  rcases h with rfl | ⟨hle, hzero⟩
  · by_cases hall : numCols = n
    · rw [if_neg (not_not.mpr hall)]
      refine .inr ⟨by omega, fun k hk => ?_⟩
      have := List.single_le_sum (fun _ _ => Nat.zero_le _) k hk
      omega
    · rw [if_pos hall]
      exact .inl rfl
  · have hn := hzero n List.mem_cons_self
    refine .inr ⟨?_, fun k hk => hzero k (List.mem_cons_of_mem _ hk)⟩
    split_ifs <;> omega

theorem PointerOk.head {colPtr start n : ℕ} {rest : List ℕ}
    (h : PointerOk colPtr start (n :: rest)) : colPtr = start ∨ n = 0 :=
  h.imp id fun h => h.2 n List.mem_cons_self

theorem PointerOk.le {colPtr start : ℕ} {samplesVec : List ℕ} (h : PointerOk colPtr start samplesVec) :
    colPtr ≤ start :=
  h.elim le_of_eq And.left

variable (backfillDuplicates) in
theorem runBatches_eq {numCols start : ℕ} {samplesVec : List ℕ} {s : Sampler σ K d}
    (h : Feasible seq model mode numCols) (hptr : PointerOk s.colPtr start samplesVec)
    (hcols : s.allSamples.numCols = numCols) (hsum : start + samplesVec.sum = numCols) :
    (runBatches seq model mode backfillDuplicates samplesVec start s).toOption.map (·.allSamples) =
      if (∀ n ∈ samplesVec, seq.validSize n) ∧
          ∀ i, start ≤ i → i < numCols → seq.place i < numCols then
        some { s.allSamples with
          col := settled seq model mode backfillDuplicates numCols samplesVec start s.sequence
            s.allSamples.col }
      else none := by
  induction samplesVec generalizing s start with
  | nil =>
    rw [List.sum_nil, Nat.add_zero] at hsum
    rw [if_pos ⟨fun n hn => absurd hn List.not_mem_nil, fun i h₁ h₂ => by omega⟩]
    rfl
  | cons n rest ih =>
    have hpoints := h.points
    have hle := hptr.le
    have hnext := hptr.next hsum
    rw [List.sum_cons] at hsum
    rw [runBatches, toOption_bind, getParameterSets_eq h hptr.head (by omega), hcols]
    by_cases hok : seq.validSize n ∧ ∀ i, start ≤ i → i < start + n → seq.place i < numCols
    · rw [if_pos hok, Option.bind_some]
      have htail : start + n + rest.sum = numCols := by omega
      have hrun := ih (s := ⟨batchSequence seq mode backfillDuplicates s.sequence, _,
        s.allSamples.numRows, s.allSamples.numCols, batchCols seq model mode
          (batchSequence seq mode backfillDuplicates s.sequence) numCols n start
          s.allSamples.col⟩) hnext hcols htail
      refine hrun.trans (if_congr ?_ rfl rfl)
      rw [List.forall_mem_cons, and_iff_right hok.1]
      refine and_congr_right fun _ => ⟨fun hrest i h₁ h₂ => ?_, fun hrest i h₁ h₂ => ?_⟩
      · rcases Nat.lt_or_ge i (start + n) with hlt | hge
        · exact hok.2 i h₁ hlt
        · exact hrest i hge h₂
      · exact hrest i (by omega) h₂
    · rw [if_neg hok, if_neg]
      · rfl
      · exact fun hall => hok ⟨hall.1 n List.mem_cons_self,
          fun i h₁ h₂ => hall.2 i h₁ (by omega)⟩

omit [Field K] in
theorem storeBatch_ok {s : σ} {colPtr numSamples start : ℕ} {m m' : SampleMatrix K d}
    (h : storeBatch seq s colPtr numSamples start m = .ok m') :
    d ≤ seq.dMax ∧ colPtr + numSamples ≤ 2 ^ seq.mMax ∧ m'.numCols = m.numCols := by
  unfold storeBatch PointSequence.getPoints at h
  cases hsizes : checkSizes seq.mMax seq.dMax colPtr (colPtr + numSamples) d numSamples with
  | error e =>
    rw [hsizes] at h
    cases h
  | ok u =>
    unfold checkSizes at hsizes
    split_ifs at hsizes with h₁ h₂ h₃
    refine ⟨Nat.not_lt.mp h₂, Nat.not_lt.mp h₁, ?_⟩
    split at h
    · have hstore := congrArg Except.toOption h
      rw [storePoints_eq] at hstore
      split_ifs at hstore
      · cases hstore
        rfl
      · cases hstore
    · cases h

/-- What a batch without errors has passed. -/
theorem getParameterSets_ok {numSamples start : ℕ} {s s' : Sampler σ K d}
    (h : getParameterSets seq model mode backfillDuplicates numSamples start s = .ok s') :
    Feasible seq model mode (s.colPtr + numSamples) ∧
      s'.colPtr = (if s.allSamples.numCols ≠ numSamples then s.colPtr + numSamples else s.colPtr) ∧
      s'.allSamples.numCols = s.allSamples.numCols := by
  unfold getParameterSets at h
  cases hsupported : model.supported with
  | false =>
    rw [hsupported] at h
    cases h
  | true =>
    rw [hsupported] at h
    cases hmode : mode.isUniform with
    | true =>
      rw [hmode] at h
      obtain ⟨bnds, hbnds, h⟩ := Outcome.bind_eq_ok.mp h
      obtain ⟨m, hm, h⟩ := Outcome.bind_eq_ok.mp h
      obtain ⟨hdim, hpoints, hcols⟩ := storeBatch_ok hm
      cases h
      exact ⟨⟨hsupported, fun _ => ⟨bnds, hbnds⟩, hdim, hpoints⟩, rfl, hcols⟩
    | false =>
      rw [hmode] at h
      obtain ⟨m, hm, h⟩ := Outcome.bind_eq_ok.mp h
      obtain ⟨hdim, hpoints, hcols⟩ := storeBatch_ok hm
      cases h
      exact ⟨⟨hsupported, fun htrue => absurd (hmode.symm.trans htrue) Bool.false_ne_true, hdim,
        hpoints⟩, rfl, hcols⟩

/-- A run without errors has passed the checks for all its points. -/
theorem feasible_of_run {numCols start : ℕ} {samplesVec : List ℕ} {s s' : Sampler σ K d}
    (hne : samplesVec ≠ []) (hstart : start ≤ 2 ^ seq.mMax)
    (hptr : PointerOk s.colPtr start samplesVec) (hcols : s.allSamples.numCols = numCols)
    (hsum : start + samplesVec.sum = numCols)
    (h : runBatches seq model mode backfillDuplicates samplesVec start s = .ok s') :
    Feasible seq model mode numCols := by
  induction samplesVec generalizing s start with
  | nil => exact (hne rfl).elim
  | cons n rest ih =>
    obtain ⟨s₁, hbatch, hrest⟩ := Outcome.bind_eq_ok.mp h
    obtain ⟨hfeasible, hptr₁, hcols₁⟩ := getParameterSets_ok hbatch
    have hnext := hptr.next hsum
    have hpoints := hfeasible.points
    rw [List.sum_cons] at hsum
    have hle : start + n ≤ 2 ^ seq.mMax := by
      rcases hptr.head with heq | hzero <;> omega
    rcases eq_or_ne rest [] with rfl | hrestNe
    · rw [List.sum_nil] at hsum
      exact ⟨hfeasible.supported, hfeasible.bounds, hfeasible.dimension, by omega⟩
    · rw [hcols] at hptr₁
      exact ih hrestNe hle (by rw [hptr₁]; exact hnext) (hcols₁.trans hcols) (by omega) hrest

variable (seq model mode backfillDuplicates) in
/-- The samples of a run from a new sampler: there are some if all checks pass, and no write is
outside. -/
theorem samplesOf_preRun {samplesVec : List ℕ} {s : Sampler σ K d} (hne : samplesVec ≠ [])
    (hptr : s.colPtr = 0) :
    (Feasible seq model mode samplesVec.sum →
      samplesOf (preRun seq model mode backfillDuplicates samplesVec s) =
        if (∀ n ∈ samplesVec, seq.validSize n) ∧
            ∀ i < samplesVec.sum, seq.place i < samplesVec.sum then
          some ((List.range samplesVec.sum).map (settled seq model mode backfillDuplicates
            samplesVec.sum samplesVec 0 s.sequence (s.allSamples.shaped samplesVec.sum).col))
        else none) ∧
    (¬ Feasible seq model mode samplesVec.sum →
      samplesOf (preRun seq model mode backfillDuplicates samplesVec s) = none) := by
  have hcols : (s.allSamples.shaped samplesVec.sum).numCols = samplesVec.sum := by
    unfold SampleMatrix.shaped
    split_ifs with h
    · rfl
    · exact not_not.mp (not_or.mp h).2
  constructor
  · intro h
    have hrun := runBatches_eq backfillDuplicates
      (s := { s with allSamples := s.allSamples.shaped samplesVec.sum }) h (.inl hptr) hcols
      (Nat.zero_add _)
    have hsamples : samplesOf (preRun seq model mode backfillDuplicates samplesVec s) =
        ((preRun seq model mode backfillDuplicates samplesVec s).toOption.map
          (·.allSamples)).map fun m => (List.range m.numCols).map m.col := by
      rw [Option.map_map]
      rfl
    rw [hsamples, preRun, hrun]
    split_ifs with hok hok' hok'
    · refine congrArg some ?_
      show (List.range (s.allSamples.shaped samplesVec.sum).numCols).map _ = _
      rw [hcols]
    · exact (hok' ⟨hok.1, fun i hi => hok.2 i (Nat.zero_le i) hi⟩).elim
    · exact (hok ⟨hok'.1, fun i _ hi => hok'.2 i hi⟩).elim
    · rfl
  · intro h
    unfold samplesOf
    cases hrun : preRun seq model mode backfillDuplicates samplesVec s with
    | error e => rfl
    | ok s' =>
      exact (h (feasible_of_run (s := { s with allSamples := s.allSamples.shaped samplesVec.sum })
        hne (Nat.zero_le _) (.inl hptr) hcols (Nat.zero_add _) hrun)).elim

/-! ## Columns -/

theorem settled_append {numCols start : ℕ} {pre post : List ℕ} {s : σ} {col : ℕ → Fin d → K} :
    settled seq model mode backfillDuplicates numCols (pre ++ post) start s col =
      settled seq model mode backfillDuplicates numCols post (start + pre.sum)
        ((batchSequence seq mode backfillDuplicates)^[pre.length] s)
        (settled seq model mode backfillDuplicates numCols pre start s col) := by
  induction pre generalizing start s col with
  | nil => rfl
  | cons n pre ih =>
    rw [List.cons_append, settled, ih, List.sum_cons, List.length_cons, Function.iterate_succ_apply,
      Nat.add_assoc]
    rfl

/-- A column whose point is stored: in a uniform mode each batch that follows scales it. -/
theorem settled_of_lt {numCols start i : ℕ} {post : List ℕ} {s : σ} {col : ℕ → Fin d → K}
    (hi : i < start) (hplace : seq.place i < numCols) :
    settled seq model mode backfillDuplicates numCols post start s col (seq.place i) =
      if mode.isUniform then (columnMap model mode)^[post.length] (col (seq.place i))
      else if start ≤ seq.place i ∧ seq.place i < start + post.sum then
        columnMap model mode (col (seq.place i))
      else col (seq.place i) := by
  induction post generalizing start s col with
  | nil =>
    split_ifs with hmode hmem
    · rfl
    · rw [List.sum_nil] at hmem
      omega
    · rfl
  | cons n post ih =>
    rw [settled, ih (by omega)]
    cases hmode : mode.isUniform with
    | true =>
      have hbatch : batchCols seq model mode (batchSequence seq mode backfillDuplicates s) numCols n
          start col (seq.place i) = columnMap model mode (col (seq.place i)) := by
        rw [batchCols, if_pos ((mapped_uniform hmode).mpr hplace), placed_of_lt hi]
      rw [if_pos rfl, if_pos rfl, hbatch, List.length_cons, Function.iterate_succ_apply]
    | false =>
      have hbatch : batchCols seq model mode (batchSequence seq mode backfillDuplicates s) numCols n
          start col (seq.place i) = if start ≤ seq.place i ∧ seq.place i < start + n then
            columnMap model mode (col (seq.place i)) else col (seq.place i) := by
        rw [batchCols, placed_of_lt hi]
        exact if_congr (mapped_native hmode) rfl rfl
      rw [if_neg Bool.false_ne_true, if_neg Bool.false_ne_true, hbatch, List.sum_cons]
      by_cases hhere : start ≤ seq.place i ∧ seq.place i < start + n
      · rw [if_pos hhere, if_neg (by omega), if_pos (by omega)]
      · rw [if_neg hhere]
        exact if_congr (by omega) rfl rfl

variable (seq model mode backfillDuplicates) in
/-- The column of a point: of the batch that stores it. -/
theorem settled_apply {numCols i n : ℕ} (s : σ) (col : ℕ → Fin d → K) (pre post : List ℕ)
    (hsum : (pre ++ n :: post).sum = numCols) (h₁ : pre.sum ≤ i) (h₂ : i < pre.sum + n)
    (hplace : seq.place i < numCols) :
    settled seq model mode backfillDuplicates numCols (pre ++ n :: post) 0 s col (seq.place i) =
      if mode.isUniform then
        (columnMap model mode)^[post.length + 1] fun row => seq.point s (seq.place i) row
      else if pre.sum ≤ seq.place i then
        columnMap model mode fun row => seq.point
          ((batchSequence seq mode backfillDuplicates)^[pre.length + 1] s) (seq.place i) row
      else fun row => seq.point
          ((batchSequence seq mode backfillDuplicates)^[pre.length + 1] s) (seq.place i) row := by
  rw [List.sum_append, List.sum_cons] at hsum
  rw [settled_append, settled, settled_of_lt (by omega) hplace, Nat.zero_add,
    ← Function.iterate_succ_apply' (batchSequence seq mode backfillDuplicates) pre.length s]
  cases hmode : mode.isUniform with
  | true =>
    have hseq (k : ℕ) : (batchSequence seq mode backfillDuplicates)^[k] s = s := by
      induction k with
      | zero => rfl
      | succ k ih => rw [Function.iterate_succ_apply, batchSequence_uniform hmode, ih]
    rw [if_pos rfl, if_pos rfl, hseq, batchCols, if_pos ((mapped_uniform hmode).mpr hplace),
      placed_place h₁ h₂, ← Function.iterate_succ_apply]
  | false =>
    rw [if_neg Bool.false_ne_true, if_neg Bool.false_ne_true]
    have hbatch (q : σ) (col : ℕ → Fin d → K) :
        batchCols seq model mode q numCols n pre.sum col (seq.place i) =
          if pre.sum ≤ seq.place i ∧ seq.place i < pre.sum + n then
            columnMap model mode fun row => seq.point q (seq.place i) row
          else fun row => seq.point q (seq.place i) row := by
      rw [batchCols, placed_place h₁ h₂]
      exact if_congr (mapped_native hmode) rfl rfl
    rw [hbatch]
    by_cases hhere : pre.sum ≤ seq.place i ∧ seq.place i < pre.sum + n
    · rw [if_pos hhere, if_neg (by omega), if_pos hhere.1]
    · rw [if_neg hhere]
      exact if_congr (by omega) rfl rfl

/-! ## Reproduction -/

/-- The batches of `pre_run`: the initial samples, and those of each refinement. -/
def SampleCounts.samplesVec (counts : SampleCounts) : List ℕ :=
  counts.numSamples :: counts.refineSamples

/-- The samples of the batches are those of one batch of all points. -/
def Reproduces (seq : PointSequence σ K) (model : SamplingModel K d) (mode : SamplingVarsMode)
    (backfillDuplicates : Bool) (counts : SampleCounts) (s : σ) (allSamples : SampleMatrix K d) :
    Prop :=
  samplesOf (preRun seq model mode backfillDuplicates counts.samplesVec ⟨s, 0, allSamples⟩) =
    samplesOf (preRun seq model mode backfillDuplicates [counts.samplesVec.sum] ⟨s, 0, allSamples⟩)

/-- No coordinate changes when a sample is scaled by the number of batches that follow. -/
def ScalingFixes (lower upper : ℕ → K) (later : ℕ) (p : Fin d → K) : Prop :=
  later = 0 ∨ ∀ row : Fin d, upper row = lower row ∨ scaleColumn lower upper p row = p row ∨
    (upper row - lower row = -1 ∧ Even later)

/-- The state of the sequence for batch `k`. -/
def randomized (seq : PointSequence σ K) (backfillDuplicates : Bool) (k : ℕ) (s : σ) : σ :=
  if backfillDuplicates then seq.randomize^[k + 1] s else s

/-- What reproduction asks of the sizes of the batches, and of the point that step `i` of the
sequence stores in a batch. -/
structure BatchesAgree (seq : PointSequence σ K) (model : SamplingModel K d)
    (mode : SamplingVarsMode) (backfillDuplicates : Bool) (counts : SampleCounts) (s : σ) :
    Prop where
  sizes : ((∀ n ∈ counts.samplesVec, seq.validSize n) ∧
    ∀ i < counts.samplesVec.sum, seq.place i < counts.samplesVec.sum) ↔
      seq.validSize counts.samplesVec.sum
  uniform : mode.isUniform = true → seq.validSize counts.samplesVec.sum →
    ∀ bnds, model.uniformBounds mode = .ok bnds →
      ∀ pre n post i, counts.samplesVec = pre ++ n :: post → pre.sum ≤ i → i < pre.sum + n →
        ScalingFixes bnds.1 bnds.2 post.length
          fun row : Fin d => seq.point s (seq.place i) row
  native : mode.isUniform = false → seq.validSize counts.samplesVec.sum →
    ∀ pre n post i, counts.samplesVec = pre ++ n :: post → pre.sum ≤ i → i < pre.sum + n →
      (if pre.sum ≤ seq.place i then model.transformColumn fun row =>
          seq.point (randomized seq backfillDuplicates pre.length s) (seq.place i) row
        else fun row =>
          seq.point (randomized seq backfillDuplicates pre.length s) (seq.place i) row) =
        model.transformColumn fun row =>
          seq.point (randomized seq backfillDuplicates 0 s) (seq.place i) row

omit [Field K] in
theorem batchSequence_iterate {s : σ} {k : ℕ} (hmode : mode.isUniform = false) :
    (batchSequence seq mode backfillDuplicates)^[k + 1] s =
      randomized seq backfillDuplicates k s := by
  unfold randomized
  induction k generalizing s with
  | zero => exact batchSequence_native seq hmode
  | succ k ih =>
    rw [Function.iterate_succ_apply, ih, batchSequence_native seq hmode]
    split_ifs
    · rfl
    · rfl

/-- The batch of a step. -/
theorem exists_batch {l : List ℕ} {i : ℕ} (hi : i < l.sum) :
    ∃ pre n post, l = pre ++ n :: post ∧ pre.sum ≤ i ∧ i < pre.sum + n := by
  induction l generalizing i with
  | nil => exact absurd hi (Nat.not_lt_zero i)
  | cons n l ih =>
    rw [List.sum_cons] at hi
    rcases Nat.lt_or_ge i n with hlt | hge
    · exact ⟨[], n, l, rfl, Nat.zero_le i, by simpa using hlt⟩
    · obtain ⟨pre, k, post, rfl, h₁, h₂⟩ := ih (i := i - n) (by omega)
      refine ⟨n :: pre, k, post, rfl, ?_, ?_⟩ <;> rw [List.sum_cons] <;> omega

omit [Field K] in
/-- Each column has its step, where the ordering allows the number of points. -/
theorem exists_place {total x : ℕ} (htotal : total < 2 ^ 31) (hvalid : seq.validSize total)
    (hx : x < total) : ∃ i < total, seq.place i = x := by
  have hmaps : Set.MapsTo seq.place (Finset.range total) (Finset.range total) := fun i hi =>
    Finset.mem_coe.mpr (Finset.mem_range.mpr
      (seq.place_lt htotal hvalid (Finset.mem_range.mp (Finset.mem_coe.mp hi))))
  obtain ⟨i, hi, heq⟩ := Finset.surjOn_of_injOn_of_card_le seq.place hmaps
    seq.place_injective.injOn le_rfl (Finset.mem_coe.mpr (Finset.mem_range.mpr hx))
  exact ⟨i, Finset.mem_range.mp (Finset.mem_coe.mp hi), heq⟩

theorem scaleColumn_iterate {lower upper : ℕ → K} {p : Fin d → K} {k : ℕ} {row : Fin d} :
    (scaleColumn lower upper)^[k] p row - p row =
      (∑ i ∈ Finset.range k, (upper row - lower row) ^ i) *
        (scaleColumn lower upper p row - p row) := by
  induction k with
  | zero => simp
  | succ k ih =>
    have hstep : (scaleColumn lower upper)^[k + 1] p row =
        (scaleColumn lower upper)^[k] p row * (upper row - lower row) + lower row := by
      rw [Function.iterate_succ_apply']
      rfl
    rw [hstep, Finset.sum_range_succ', eq_add_of_sub_eq ih, pow_zero]
    simp only [pow_succ, ← Finset.sum_mul, scaleColumn]
    ring

/-- When the scalings after the first one leave a sample. -/
theorem scaleColumn_fixes_iff [LinearOrder K] [IsStrictOrderedRing K] {lower upper : ℕ → K}
    {p : Fin d → K} {later : ℕ} :
    (scaleColumn lower upper)^[later + 1] p = scaleColumn lower upper p ↔
      ScalingFixes lower upper later p := by
  rw [Function.iterate_succ_apply, ScalingFixes]
  rcases Nat.eq_zero_or_pos later with rfl | hpos
  · simp
  have hsecond (row : Fin d) : scaleColumn lower upper (scaleColumn lower upper p) row -
      scaleColumn lower upper p row =
        (upper row - lower row) * (scaleColumn lower upper p row - p row) := by
    simp only [scaleColumn]
    ring
  rw [or_iff_right hpos.ne', funext_iff]
  refine forall_congr' fun row => ?_
  rw [← sub_eq_zero, scaleColumn_iterate, hsecond, mul_eq_zero, mul_eq_zero, sub_eq_zero, sub_eq_zero,
    geom_sum_eq_zero_iff_neg_one hpos.ne']
  tauto

/-- Equal columns, step by step. -/
theorem columns_eq_iff {counts : SampleCounts} {s : σ} {col : ℕ → Fin d → K}
    (hvalid : seq.validSize counts.samplesVec.sum) :
    (List.range counts.samplesVec.sum).map (settled seq model mode backfillDuplicates
        counts.samplesVec.sum counts.samplesVec 0 s col) =
      (List.range counts.samplesVec.sum).map (settled seq model mode backfillDuplicates
        counts.samplesVec.sum [counts.samplesVec.sum] 0 s col) ↔
    ∀ pre n post i, counts.samplesVec = pre ++ n :: post → pre.sum ≤ i → i < pre.sum + n →
      settled seq model mode backfillDuplicates counts.samplesVec.sum counts.samplesVec 0 s col
          (seq.place i) =
        settled seq model mode backfillDuplicates counts.samplesVec.sum [counts.samplesVec.sum] 0 s
          col (seq.place i) := by
  have htotal : counts.samplesVec.sum < 2 ^ 31 := by
    rw [SampleCounts.samplesVec, List.sum_cons]
    exact counts.total_lt
  constructor
  · intro h pre n post i hsplit h₁ h₂
    have hi : i < counts.samplesVec.sum := by
      rw [hsplit, List.sum_append, List.sum_cons]
      omega
    exact List.map_inj_left.mp h _ (List.mem_range.mpr (seq.place_lt htotal hvalid hi))
  · intro h
    refine List.map_congr_left fun x hx => ?_
    obtain ⟨i, hi, rfl⟩ := exists_place htotal hvalid (List.mem_range.mp hx)
    obtain ⟨pre, n, post, hsplit, h₁, h₂⟩ := exists_batch hi
    exact h pre n post i hsplit h₁ h₂

section

variable {counts : SampleCounts} {s : σ} {col : ℕ → Fin d → K} {pre post : List ℕ} {n i : ℕ}
  (hvalid : seq.validSize counts.samplesVec.sum) (hsplit : counts.samplesVec = pre ++ n :: post)
  (h₁ : pre.sum ≤ i) (h₂ : i < pre.sum + n)
include hvalid hsplit h₁ h₂

omit [Field K] h₁ in
theorem place_lt_total : i < counts.samplesVec.sum ∧
    seq.place i < counts.samplesVec.sum := by
  have htotal : counts.samplesVec.sum < 2 ^ 31 := by
    rw [SampleCounts.samplesVec, List.sum_cons]
    exact counts.total_lt
  have hi : i < counts.samplesVec.sum := by
    rw [hsplit, List.sum_append, List.sum_cons]
    omega
  exact ⟨hi, seq.place_lt htotal hvalid hi⟩

theorem column_uniform_iff [LinearOrder K] [IsStrictOrderedRing K]
    (hmode : mode.isUniform = true) {bnds : (ℕ → K) × (ℕ → K)}
    (hbnds : model.uniformBounds mode = .ok bnds) :
    settled seq model mode backfillDuplicates counts.samplesVec.sum counts.samplesVec 0 s col
        (seq.place i) =
      settled seq model mode backfillDuplicates counts.samplesVec.sum [counts.samplesVec.sum] 0 s
        col (seq.place i) ↔
    ScalingFixes bnds.1 bnds.2 post.length fun row : Fin d => seq.point s (seq.place i) row := by
  obtain ⟨hi, hplace⟩ := place_lt_total hvalid hsplit h₂
  have honce := settled_apply seq model mode backfillDuplicates s col [] []
    (List.sum_singleton (x := counts.samplesVec.sum)) (Nat.zero_le i)
    (by rw [List.sum_nil]; omega) hplace
  have hbatch := settled_apply seq model mode backfillDuplicates s col pre post
    (congrArg List.sum hsplit).symm h₁ h₂ hplace
  rw [← hsplit] at hbatch
  rw [List.nil_append] at honce
  rw [hbatch, honce, if_pos hmode, if_pos hmode, columnMap_uniform hmode hbnds]
  exact scaleColumn_fixes_iff

theorem column_native_iff (hmode : mode.isUniform = false) :
    settled seq model mode backfillDuplicates counts.samplesVec.sum counts.samplesVec 0 s col
        (seq.place i) =
      settled seq model mode backfillDuplicates counts.samplesVec.sum [counts.samplesVec.sum] 0 s
        col (seq.place i) ↔
    (if pre.sum ≤ seq.place i then model.transformColumn fun row =>
        seq.point (randomized seq backfillDuplicates pre.length s) (seq.place i) row
      else fun row =>
        seq.point (randomized seq backfillDuplicates pre.length s) (seq.place i) row) =
      model.transformColumn fun row =>
        seq.point (randomized seq backfillDuplicates 0 s) (seq.place i) row := by
  obtain ⟨hi, hplace⟩ := place_lt_total hvalid hsplit h₂
  have honce := settled_apply seq model mode backfillDuplicates s col [] []
    (List.sum_singleton (x := counts.samplesVec.sum)) (Nat.zero_le i)
    (by rw [List.sum_nil]; omega) hplace
  have hbatch := settled_apply seq model mode backfillDuplicates s col pre post
    (congrArg List.sum hsplit).symm h₁ h₂ hplace
  have hnative : ¬ mode.isUniform = true := by
    rw [hmode]
    exact Bool.false_ne_true
  rw [← hsplit] at hbatch
  rw [List.nil_append] at honce
  rw [hbatch, honce, if_neg hnative, if_neg hnative,
    if_pos (c := ([] : List ℕ).sum ≤ _) (Nat.zero_le _), columnMap_native hmode, batchSequence_iterate hmode, List.length_nil,
    batchSequence_iterate hmode]

end

theorem samplesVec_ne_nil (counts : SampleCounts) : counts.samplesVec ≠ [] :=
  List.cons_ne_nil _ _

/-- Two points, `0` and `1/2`. -/
def halves : PointSequence (ℕ → ℚ) ℚ :=
  Rank1Lattice.toSequence ⟨1, 1, .natural, fun _ => 1, fun _ => 0⟩ id

/-- One variable within `[0, 3]`. -/
def upToThree : SamplingModel ℚ 1 where
  supported := true
  view := .relaxedDesign
  continuousLowerBnds _ := 0
  continuousUpperBnds _ := 3
  allContinuousLowerBnds _ := 0
  allContinuousUpperBnds _ := 3
  startAcv := 0
  numAcv := 1
  transformSample p := p

def oneAndOne : SampleCounts := ⟨1, [1], by decide⟩

end Dakota.LowDiscrepancy
