import Mathlib
import Dakota.Lib.Strata

/-!
# Incremental Latin hypercube samples

The batches of `NonDLHSSampling::pre_run` for incremental Latin hypercube samples
(`src/src/NonDLHSSampling.cpp`). `LHSDriver` and the random variables are outside the repository: they
are parameters.

* A matrix of values has the sample first (its column, `full_samples[s][v]`), a matrix of ranks the
  variable (`full_ranks(v, s)`). Views of columns are the columns of the full matrices.
* `std::sort` is a parameter that carries what it promises: which of two equal values comes first is
  not said.
-/

namespace Dakota.Sampling

/-- The values of `sampleRanksMode` that are used. -/
inductive RanksMode where
  | getRanks
  | setRanks
deriving DecidableEq

/-- What `generate_samples` leaves: the generator's state, `design_matrix` and `sampleRanks`. -/
structure Generated (S K : Type) where
  state : S
  designMatrix : ℕ → ℕ → K
  sampleRanks : ℕ → ℕ → K

/-- `lhsDriver`, with a mode, a number of samples and `sampleRanks`. -/
structure LHSDriver (S K : Type) where
  generateSamples : S → RanksMode → ℕ → (ℕ → ℕ → K) → Generated S K

/-- `std::sort` of indices, by `rank_sort`. -/
structure RankSort (K : Type) [LT K] where
  sort : (ℕ → K) → List ℕ → List ℕ
  perm : ∀ rawData rankCol, (sort rawData rankCol).Perm rankCol
  sorted : ∀ rawData rankCol,
    (sort rawData rankCol).Pairwise fun x y => ¬ rawData y < rawData x

/-- What a sampling does not change. -/
structure NonDLHSSampling (S K : Type) [LT K] where
  numContinuousVars : ℕ
  numDiscreteIntVars : ℕ
  numDiscreteRealVars : ℕ
  numDiscreteStringVars : ℕ
  cvIndexToAllIndex : ℕ → ℕ
  /-- `cdf` of `x_ran_vars` -/
  cdf : ℕ → K → K
  lhsDriver : LHSDriver S K
  rankSort : RankSort K

structure SamplingState (S K : Type) where
  driver : S
  sampleRanks : ℕ → ℕ → K
  fullSamples : ℕ → ℕ → K
  fullRanks : ℕ → ℕ → ℤ

namespace NonDLHSSampling

variable {S K : Type} [Field K] [LinearOrder K] (m : NonDLHSSampling S K)

def numVars : ℕ :=
  m.numContinuousVars + m.numDiscreteIntVars + m.numDiscreteRealVars + m.numDiscreteStringVars

/-- `final_rank`, from zero: `final_rank[rank_col[s]] = s`. -/
def finalRank (rawData : ℕ → K) (numSamples : ℕ) : ℕ → ℕ :=
  scatter (fun _ => 0) (m.rankSort.sort rawData (List.range numSamples)).zipIdx

/-- `store_ranks(sample_values, sample_ranks)` -/
def storeRanks [FloorRing K] (numSamples : ℕ) (g : Generated S K) : ℕ → ℕ → ℤ := fun v s =>
  if v < m.numContinuousVars then round (g.sampleRanks v s)
  else m.finalRank (fun s => g.designMatrix s v) numSamples s + 1

/-- `switch_ranks`: whether the previous sample of a rank is in the lower half of its stratum. -/
def switchRanks (previousSamples : ℕ) (initialSamples : ℕ → ℕ → K) (initialRanks : ℕ → ℕ → ℤ)
    (v : ℕ) : ℤ → Bool :=
  (List.range previousSamples).foldl
    (fun switch s =>
      let val := initialSamples s v
      let rank1 := initialRanks v s
      if m.cdf (m.cvIndexToAllIndex v) val <
          ((2 * rank1 - 1 : ℤ) : K) / (2 * previousSamples : ℕ) then
        Function.update switch (rank1 - 1) true
      else switch)
    fun _ => false

/-- The combined ranks of a continuous variable. -/
def combinedRanks (previousSamples : ℕ) (switch : ℤ → Bool) (initialRanks incremRanks : ℕ → ℤ)
    (s : ℕ) : ℤ :=
  if s < previousSamples then
    let rank1 := initialRanks s
    if switch (rank1 - 1) then 2 * rank1 - 1 else 2 * rank1
  else
    let rank2 := incremRanks (s - previousSamples)
    if switch (rank2 - 1) then 2 * rank2 else 2 * rank2 - 1

/-- `rawData` of `combine_discrete_ranks`: initial and increment values of a variable. -/
def rawData (previousSamples : ℕ) (initialValues incremValues : ℕ → ℕ → K) (v s : ℕ) : K :=
  if s < previousSamples then initialValues s v else incremValues (s - previousSamples) v

/-- `initial_increm_lhs_set` -/
def initialIncremLhsSet [FloorRing K] (newSamples : ℕ) (st : SamplingState S K) :
    SamplingState S K :=
  let g := m.lhsDriver.generateSamples st.driver .getRanks newSamples st.sampleRanks
  { driver := g.state
    sampleRanks := g.sampleRanks
    fullSamples := fun s => if s < newSamples then g.designMatrix s else st.fullSamples s
    fullRanks := fun v s =>
      if s < newSamples then m.storeRanks newSamples g v s else st.fullRanks v s }

/-- The candidate set for the increment batch. -/
def candidate (newSamples : ℕ) (st : SamplingState S K) : Generated S K :=
  m.lhsDriver.generateSamples st.driver .getRanks newSamples st.sampleRanks

/-- The ranks of the combined set, that `sampleRanks` is given. -/
def combRanks [FloorRing K] (previousSamples newSamples : ℕ) (st : SamplingState S K) (v : ℕ) :
    ℕ → ℤ :=
  let g := m.candidate newSamples st
  if v < m.numContinuousVars then
    combinedRanks previousSamples (m.switchRanks previousSamples st.fullSamples st.fullRanks v)
      (st.fullRanks v) (m.storeRanks newSamples g v)
  else fun s =>
    (m.finalRank (rawData previousSamples st.fullSamples g.designMatrix v)
      (previousSamples + newSamples) s : ℤ) + 1

/-- `increm_lhs_parameter_set`: `none` if the number of samples is not doubled. -/
def incremLhsParameterSet [FloorRing K] (previousSamples newSamples : ℕ)
    (st : SamplingState S K) : Option (SamplingState S K) :=
  if previousSamples ≠ newSamples then none
  else
    let totalSamples := previousSamples + newSamples
    let sampleRanks := fun v s => (m.combRanks previousSamples newSamples st v s : K)
    let all := m.lhsDriver.generateSamples (m.candidate newSamples st).state .setRanks totalSamples
      sampleRanks
    some
      { driver := all.state
        sampleRanks := sampleRanks
        fullSamples := fun s =>
          if previousSamples ≤ s ∧ s < totalSamples then all.designMatrix s else st.fullSamples s
        fullRanks := fun v s =>
          if s < totalSamples then round (sampleRanks v s) else st.fullRanks v s }

/-- The batches of `pre_run` after the first one, with `previous_samples`. -/
def incremBatches [FloorRing K] :
    List ℕ → ℕ → SamplingState S K → Option (ℕ × SamplingState S K)
  | [], previousSamples, st => some (previousSamples, st)
  | newSamples :: samplesVec, previousSamples, st =>
    match m.incremLhsParameterSet previousSamples newSamples st with
    | none => none
    | some st => incremBatches samplesVec (previousSamples + newSamples) st

/-- The batches of `pre_run`. -/
def preRun [FloorRing K] (numSamples : ℕ) (refineSamples : List ℕ) (st : SamplingState S K) :
    Option (ℕ × SamplingState S K) :=
  m.incremBatches refineSamples numSamples (m.initialIncremLhsSet numSamples st)

end NonDLHSSampling

end Dakota.Sampling
