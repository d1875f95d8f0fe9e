import Dakota.Sampling.IncrementalLHS

/-!
# Doubled samples are Latin hypercubes

* `Latin`: ranks are permutations, and the continuous values are in the strata of their ranks.
* `increm_doubled`: an increment of the same size makes a Latin hypercube of twice the size, and keeps
  the previous samples. Discrete ranks order the previous values with those of the candidate set.
* `incremBatches_latin`, `preRun_latin`: for a run of batches.
* `fewOnes_misordered`: the values that a discrete variable gets for the ranks need not be those of
  the candidate set, and then the ranks do not order them.
-/

namespace Dakota.Sampling

variable {S K : Type} [Field K] [LinearOrder K]

namespace NonDLHSSampling

variable {m : NonDLHSSampling S K} {n n' : ℕ} {st st' : SamplingState S K} {v s : ℕ}

/-- A value of the unit interval for each continuous value. -/
def probability (m : NonDLHSSampling S K) (samples : ℕ → ℕ → K) (v s : ℕ) : K :=
  m.cdf (m.cvIndexToAllIndex v) (samples s v)

/-- The driver, as it is used: a Latin hypercube, with ranks that it gives or is given. -/
structure Documented (m : NonDLHSSampling S K) : Prop where
  getRanks : ∀ state n ranks, ∀ v < m.numContinuousVars, ∃ rank : ℕ → ℤ, RanksOf n rank ∧
    let g := m.lhsDriver.generateSamples state .getRanks n ranks
    ∀ s < n, g.sampleRanks v s = rank s ∧ InStratum n (rank s) (m.probability g.designMatrix v s)
  setRanks : ∀ state n ranks (rank : ℕ → ℕ → ℤ),
    (∀ v < m.numVars, RanksOf n (rank v) ∧ ∀ s < n, ranks v s = (rank v s : K)) →
    let g := m.lhsDriver.generateSamples state .setRanks n ranks
    ∀ v < m.numContinuousVars, ∀ s < n,
      InStratum n (rank v s) (m.probability g.designMatrix v s)

/-- The first `n` samples are a Latin hypercube, with their ranks. -/
structure Latin (m : NonDLHSSampling S K) (n : ℕ) (st : SamplingState S K) : Prop where
  ranks : ∀ v < m.numVars, RanksOf n (st.fullRanks v)
  strata : ∀ v < m.numContinuousVars, ∀ s < n,
    InStratum n (st.fullRanks v s) (m.probability st.fullSamples v s)

/-- What an increment of `n` samples does. -/
structure Doubled [FloorRing K] (m : NonDLHSSampling S K) (n : ℕ) (st st' : SamplingState S K) :
    Prop where
  latin : m.Latin (n + n) st'
  oneValue : ∀ v < m.numContinuousVars, ∀ r ∈ Set.Icc (1 : ℤ) (n + n : ℕ),
    ∃! s, s < n + n ∧ InStratum (n + n) r (m.probability st'.fullSamples v s)
  /-- Discrete ranks order the previous values and those of the candidate set. -/
  ordered : ∀ v, m.numContinuousVars ≤ v → v < m.numVars → ∀ s < n + n, ∀ s' < n + n,
    rawData n st.fullSamples (m.candidate n st).designMatrix v s <
      rawData n st.fullSamples (m.candidate n st).designMatrix v s' →
    st'.fullRanks v s < st'.fullRanks v s'
  kept : ∀ s < n, st'.fullSamples s = st.fullSamples s
  frame : ∀ s, n + n ≤ s → st'.fullSamples s = st.fullSamples s ∧
    ∀ v, st'.fullRanks v s = st.fullRanks v s

/-! ## Ranks -/

omit [Field K] in
theorem finalRank_eq {rawData : ℕ → K} (hs : s < n) :
    m.finalRank rawData n s = (m.rankSort.sort rawData (List.range n)).idxOf s := by
  have hperm := m.rankSort.perm rawData (List.range n)
  exact scatter_zipIdx_swap (hperm.nodup_iff.mpr List.nodup_range)
    (hperm.mem_iff.mpr (List.mem_range.mpr hs))

omit [Field K] in
theorem finalRank_ranksOf {rawData : ℕ → K} :
    RanksOf n fun s => (m.finalRank rawData n s : ℤ) + 1 :=
  (ranksOf_idxOf (m.rankSort.perm rawData (List.range n))).congr fun s hs => by
    rw [finalRank_eq hs]

omit [Field K] in
theorem finalRank_lt {rawData : ℕ → K} {s' : ℕ} (hs : s < n) (hs' : s' < n)
    (hlt : rawData s < rawData s') : m.finalRank rawData n s < m.finalRank rawData n s' := by
  rw [finalRank_eq hs, finalRank_eq hs']
  exact idxOf_lt_idxOf (m.rankSort.perm _ _) (m.rankSort.sorted _ _) hs hs' hlt

theorem foldl_update_iff {cond : ℕ → Prop} [DecidablePred cond] {index : ℕ → ℤ} {l : List ℕ}
    {switch : ℤ → Bool} {r : ℤ} :
    l.foldl (fun switch s => if cond s then Function.update switch (index s) true else switch) switch
      r = true ↔ switch r = true ∨ ∃ s ∈ l, cond s ∧ index s = r := by
  induction l generalizing switch with
  | nil => simp
  | cons s l ih =>
    rw [List.foldl_cons, ih]
    split_ifs with hcond
    · by_cases hr : r = index s
      · subst hr
        simp [hcond]
      · rw [Function.update_of_ne hr]
        simp [hcond, Ne.symm hr]
    · simp [hcond]

/-- A rank is switched if its sample is in the lower half of the stratum. -/
theorem switchRanks_iff (hranks : RanksOf n (st.fullRanks v)) (hs : s < n) :
    m.switchRanks n st.fullSamples st.fullRanks v (st.fullRanks v s - 1) = true ↔
      m.probability st.fullSamples v s <
        ((2 * st.fullRanks v s - 1 : ℤ) : K) / (2 * n : ℕ) := by
  refine foldl_update_iff.trans ?_
  rw [or_iff_right Bool.false_ne_true]
  constructor
  · rintro ⟨s', hs', hlow, heq⟩
    have hsame : s' = s := hranks.injOn (List.mem_range.mp hs') hs (by omega)
    subst hsame
    exact hlow
  · intro hlow
    exact ⟨s, List.mem_range.mpr hs, hlow, rfl⟩

/-! ## An increment -/

section

variable [FloorRing K] [IsStrictOrderedRing K]

theorem storeRanks_ranksOf {ranks : ℕ → ℕ → K} {state : S} {mode : RanksMode}
    (hv : v < m.numContinuousVars) {rank : ℕ → ℤ} (hrank : RanksOf n rank)
    (heq : ∀ s < n, (m.lhsDriver.generateSamples state mode n ranks).sampleRanks v s = rank s) :
    RanksOf n (m.storeRanks n (m.lhsDriver.generateSamples state mode n ranks) v) :=
  hrank.congr fun s hs => by rw [storeRanks, if_pos hv, heq s hs, round_intCast]

/-- The combined ranks are ranks of all samples. -/
theorem combRanks_ranksOf (hdriver : m.Documented) (hlatin : m.Latin n st) (hv : v < m.numVars) :
    RanksOf (n + n) (m.combRanks n n st v) := by
  unfold combRanks
  split_ifs with hcont
  · obtain ⟨rank, hrank, hgiven⟩ := hdriver.getRanks st.driver n st.sampleRanks v hcont
    have hnew := storeRanks_ranksOf hcont hrank fun s hs => (hgiven s hs).1
    exact (hlatin.ranks v hv).merge hnew fun r =>
      m.switchRanks n st.fullSamples st.fullRanks v (r - 1)
  · exact finalRank_ranksOf

/-- The combined rank of a previous sample is the half of its stratum that the value is in. -/
theorem combRanks_old (hlatin : m.Latin n st) (hv : v < m.numContinuousVars) (hs : s < n) :
    InStratum (n + n) (m.combRanks n n st v s) (m.probability st.fullSamples v s) := by
  have hranks := hlatin.ranks v (Nat.lt_of_lt_of_le hv (by unfold numVars; omega))
  have hcomb : m.combRanks n n st v s =
      if m.probability st.fullSamples v s < ((2 * st.fullRanks v s - 1 : ℤ) : K) / (2 * n : ℕ) then
        2 * st.fullRanks v s - 1
      else 2 * st.fullRanks v s := by
    unfold combRanks combinedRanks
    simp only [if_pos hv, if_pos hs, switchRanks_iff hranks hs]
  rw [hcomb]
  exact (hlatin.strata v hv s hs).halve (Nat.zero_lt_of_lt hs)

variable (m n st) in
/-- What an increment of the same size sets: combined ranks, and the new samples for these ranks. -/
theorem increm_spec : ∃ st', m.incremLhsParameterSet n n st = some st' ∧
    (∀ v, ∀ s < n + n, st'.fullRanks v s = m.combRanks n n st v s) ∧
    (∀ s, n ≤ s → s < n + n → st'.fullSamples s =
      (m.lhsDriver.generateSamples (m.candidate n st).state .setRanks (n + n)
        fun v s => (m.combRanks n n st v s : K)).designMatrix s) ∧
    (∀ s < n, st'.fullSamples s = st.fullSamples s) ∧
    ∀ s, n + n ≤ s → st'.fullSamples s = st.fullSamples s ∧
      ∀ v, st'.fullRanks v s = st.fullRanks v s := by
  refine ⟨_, if_neg (not_not_intro rfl), fun v s hs => ?_, fun s hle hs => if_pos ⟨hle, hs⟩,
    fun s hs => if_neg (by omega), fun s hs => ⟨if_neg (by omega), fun v => if_neg (by omega)⟩⟩
  exact (if_pos hs).trans (round_intCast _)

/-- Each combined value is in the stratum of its combined rank. -/
theorem combRanks_strata (hdriver : m.Documented) (hlatin : m.Latin n st)
    (hnew : ∀ s, n ≤ s → s < n + n → st'.fullSamples s =
      (m.lhsDriver.generateSamples (m.candidate n st).state .setRanks (n + n)
        fun v s => (m.combRanks n n st v s : K)).designMatrix s)
    (hold : ∀ s < n, st'.fullSamples s = st.fullSamples s) (hv : v < m.numContinuousVars)
    (hs : s < n + n) :
    InStratum (n + n) (m.combRanks n n st v s) (m.probability st'.fullSamples v s) := by
  by_cases hlt : s < n
  · rw [probability, hold s hlt]
    exact combRanks_old hlatin hv hlt
  · rw [probability, hnew s (Nat.le_of_not_lt hlt) hs]
    exact hdriver.setRanks _ _ _ (fun v s => m.combRanks n n st v s)
      (fun v hv => ⟨combRanks_ranksOf hdriver hlatin hv, fun s _ => rfl⟩) v hv s hs

/-- An increment of the same size doubles a Latin hypercube. -/
theorem increm_doubled (hdriver : m.Documented) (hlatin : m.Latin n st) :
    ∃ st', m.incremLhsParameterSet n n st = some st' ∧ m.Doubled n st st' := by
  obtain ⟨st', hstep, hranks, hnew, hold, hframe⟩ := increm_spec m n st
  have hlatin' : m.Latin (n + n) st' :=
    { ranks := fun v hv => (combRanks_ranksOf hdriver hlatin hv).congr fun s hs =>
        (hranks v s hs).symm
      strata := fun v hv s hs => by
        rw [hranks v s hs]
        exact combRanks_strata hdriver hlatin hnew hold hv hs }
  refine ⟨st', hstep, hlatin', fun v hv r hr => ?_, fun v hv _ s hs s' hs' hlt => ?_, hold, hframe⟩
  · exact (hlatin'.ranks v (Nat.lt_of_lt_of_le hv (by unfold numVars; omega))).existsUnique
      (hlatin'.strata v hv) hr
  · rw [hranks v s hs, hranks v s' hs']
    unfold combRanks
    rw [if_neg (Nat.not_lt.mpr hv)]
    have hlt := finalRank_lt (m := m) hs hs' hlt
    exact Int.add_lt_add_right (Int.ofNat_lt.mpr hlt) 1

/-! ## Runs -/

/-- The first batch. -/
theorem initial_latin (hdriver : m.Documented) : m.Latin n (m.initialIncremLhsSet n st) := by
  constructor
  · intro v hv
    have hstored : ∀ s < n, m.storeRanks n (m.lhsDriver.generateSamples st.driver .getRanks n
        st.sampleRanks) v s = (m.initialIncremLhsSet n st).fullRanks v s :=
      fun s hs => (if_pos hs).symm
    refine RanksOf.congr ?_ hstored
    by_cases hcont : v < m.numContinuousVars
    · obtain ⟨rank, hrank, hgiven⟩ := hdriver.getRanks st.driver n st.sampleRanks v hcont
      exact storeRanks_ranksOf hcont hrank fun s hs => (hgiven s hs).1
    · exact finalRank_ranksOf.congr fun s _ => (if_neg hcont).symm
  · intro v hv s hs
    obtain ⟨rank, hrank, hgiven⟩ := hdriver.getRanks st.driver n st.sampleRanks v hv
    have hstored : (m.initialIncremLhsSet n st).fullRanks v s = rank s := by
      refine (if_pos hs).trans ((if_pos hv).trans ?_)
      rw [(hgiven s hs).1, round_intCast]
    have hvalue : (m.initialIncremLhsSet n st).fullSamples s =
        (m.lhsDriver.generateSamples st.driver .getRanks n st.sampleRanks).designMatrix s :=
      if_pos hs
    rw [hstored, probability, hvalue]
    exact (hgiven s hs).2

/-- The batches that double `n` samples `k` times. -/
def doublings : ℕ → ℕ → List ℕ
  | 0, _ => []
  | k + 1, n => n :: doublings k (n + n)

theorem incremBatches_cons {size : ℕ} {sizes : List ℕ} (hdriver : m.Documented)
    (hlatin : m.Latin n st) : ∃ st₁, m.Doubled n st st₁ ∧
      m.incremBatches (size :: sizes) n st =
        if n = size then m.incremBatches sizes (n + n) st₁ else none := by
  obtain ⟨st₁, hstep, hdoubled⟩ := increm_doubled hdriver hlatin
  refine ⟨st₁, hdoubled, ?_⟩
  split_ifs with hsize
  · subst hsize
    rw [incremBatches, hstep]
  · rw [incremBatches, incremLhsParameterSet, if_pos hsize]

/-- A run ends in a Latin hypercube, and keeps the first samples. -/
theorem incremBatches_latin (hdriver : m.Documented) (hlatin : m.Latin n st) {sizes : List ℕ}
    (hrun : m.incremBatches sizes n st = some (n', st')) :
    m.Latin n' st' ∧ n' = n * 2 ^ sizes.length ∧ ∀ s < n, st'.fullSamples s = st.fullSamples s := by
  induction sizes generalizing n st with
  | nil =>
    cases hrun
    exact ⟨hlatin, by simp, fun _ _ => rfl⟩
  | cons size sizes ih =>
    obtain ⟨st₁, hdoubled, hcons⟩ := incremBatches_cons hdriver hlatin
    rw [hcons] at hrun
    split_ifs at hrun with hsize
    obtain ⟨hlatin', hn', hkept⟩ := ih hdoubled.latin hrun
    refine ⟨hlatin', ?_, fun s hs => ?_⟩
    · rw [hn', List.length_cons, pow_succ]
      ring
    · rw [hkept s (by omega), hdoubled.kept s hs]

/-- Runs are accepted if they double the samples each time. -/
theorem incremBatches_isSome_iff (hdriver : m.Documented) (hlatin : m.Latin n st) {sizes : List ℕ} :
    (m.incremBatches sizes n st).isSome ↔ sizes = doublings sizes.length n := by
  induction sizes generalizing n st with
  | nil => exact ⟨fun _ => rfl, fun _ => rfl⟩
  | cons size sizes ih =>
    obtain ⟨st₁, hdoubled, hcons⟩ := incremBatches_cons hdriver hlatin
    rw [hcons, List.length_cons, doublings, List.cons.injEq]
    split_ifs with hsize
    · rw [ih hdoubled.latin, and_iff_right hsize.symm]
    · exact ⟨fun h => absurd h Bool.false_ne_true, fun h => absurd h.1.symm hsize⟩

theorem length_doublings {k : ℕ} : (doublings k n).length = k := by
  induction k generalizing n with
  | zero => rfl
  | succ k ih => rw [doublings, List.length_cons, ih]

/-- The samples of a whole run are a Latin hypercube. -/
theorem preRun_latin (hdriver : m.Documented) {sizes : List ℕ}
    (hrun : m.preRun n sizes st = some (n', st')) : m.Latin n' st' :=
  (incremBatches_latin hdriver (initial_latin hdriver) hrun).1

/-- After any number of doublings, a further increment doubles the Latin hypercube. -/
theorem doublings_latin (hdriver : m.Documented) (hlatin : m.Latin n st) (k : ℕ) :
    ∃ st₁ st₂, m.incremBatches (doublings k n) n st = some (n * 2 ^ k, st₁) ∧
      (∀ s < n, st₁.fullSamples s = st.fullSamples s) ∧
      m.incremLhsParameterSet (n * 2 ^ k) (n * 2 ^ k) st₁ = some st₂ ∧
      m.Doubled (n * 2 ^ k) st₁ st₂ := by
  have hsome := (incremBatches_isSome_iff hdriver hlatin).mpr
    (show doublings k n = _ by rw [length_doublings])
  obtain ⟨⟨n₁, st₁⟩, hrun⟩ := Option.isSome_iff_exists.mp hsome
  obtain ⟨hlatin', hn₁, hkept⟩ := incremBatches_latin hdriver hlatin hrun
  rw [length_doublings] at hn₁
  subst hn₁
  obtain ⟨st₂, hstep, hdoubled⟩ := increm_doubled hdriver hlatin'
  exact ⟨st₁, st₂, hrun, hkept, hstep, hdoubled⟩

end

end NonDLHSSampling

/-! ## Candidate values that are not kept -/

open NonDLHSSampling

/-- A stable sort. -/
def insertionRankSort {K : Type} [LinearOrder K] : RankSort K where
  sort rawData := List.insertionSort fun x y => rawData x ≤ rawData y
  perm _ := List.perm_insertionSort _
  sorted rawData rankCol :=
    haveI : Std.Total fun x y => rawData x ≤ rawData y := ⟨fun _ _ => le_total _ _⟩
    haveI : IsTrans ℕ fun x y => rawData x ≤ rawData y := ⟨fun _ _ _ => le_trans⟩
    (List.pairwise_insertionSort (fun x y => rawData x ≤ rawData y) rankCol).imp not_lt_of_ge

/-- A uniform variable, and a discrete one that is 1 with probability 1/10. -/
def fewOnesValue (v : ℕ) (u : ℚ) : ℚ := if v = 0 then u else if u < 9 / 10 then 0 else 1

/-- Samples near the upper ends of strata, and in the middle for given ranks. -/
def fewOnesDriver : LHSDriver Unit ℚ where
  generateSamples _ mode n ranks :=
    match mode with
    | .getRanks => ⟨(), fun s v => fewOnesValue v ((s + 1 - 1 / 20) / n), fun _ s => s + 1⟩
    | .setRanks => ⟨(), fun s v => fewOnesValue v ((ranks v s - 1 / 2) / n), ranks⟩

def fewOnes : NonDLHSSampling Unit ℚ where
  numContinuousVars := 1
  numDiscreteIntVars := 1
  numDiscreteRealVars := 0
  numDiscreteStringVars := 0
  cvIndexToAllIndex v := v
  cdf _ u := u
  lhsDriver := fewOnesDriver
  rankSort := insertionRankSort

theorem fewOnes_documented : fewOnes.Documented where
  getRanks state n ranks v hv := by
    have hv : v = 0 := Nat.lt_one_iff.mp hv
    subst hv
    refine ⟨fun s => s + 1, ranksOf_succ, fun s hs => ⟨by simp [fewOnes, fewOnesDriver], ?_⟩⟩
    have hoffset := inStratum_offset (r := s + 1) (Nat.zero_lt_of_lt hs)
      (show (0 : ℚ) < 1 / 20 by norm_num) (by norm_num)
    simpa [probability, fewOnes, fewOnesDriver, fewOnesValue] using hoffset
  setRanks state n ranks rank hrank v hv s hs := by
    have hgiven := (hrank v (Nat.lt_of_lt_of_le hv (by decide))).2 s hs
    have hv : v = 0 := Nat.lt_one_iff.mp hv
    subst hv
    have hoffset := inStratum_offset (r := rank 0 s) (Nat.zero_lt_of_lt hs)
      (show (0 : ℚ) < 1 / 2 by norm_num) (by norm_num)
    simpa [probability, fewOnes, fewOnesDriver, fewOnesValue, hgiven] using hoffset

/-- Two samples, of which the second has the discrete value 1. -/
def fewOnesInitial : SamplingState Unit ℚ := fewOnes.initialIncremLhsSet 2 ⟨(), 0, 0, 0⟩

theorem doublings_latin_fewOnes :
    ∃ st₁ st₂, fewOnes.incremBatches (doublings 1 2) 2 fewOnesInitial = some (2 * 2 ^ 1, st₁) ∧
      (∀ s < 2, st₁.fullSamples s = fewOnesInitial.fullSamples s) ∧
      fewOnes.incremLhsParameterSet (2 * 2 ^ 1) (2 * 2 ^ 1) st₁ = some st₂ ∧
      fewOnes.Doubled (2 * 2 ^ 1) st₁ st₂ :=
  doublings_latin fewOnes_documented (initial_latin fewOnes_documented) 1

/-- The second sample and the second candidate are 1, and get ranks 3 and 4. For rank 4 the driver
then gives 0: the ranks do not order the values. -/
theorem fewOnes_misordered :
    fewOnes.Documented ∧ fewOnes.Latin 2 fewOnesInitial ∧
      ∃ st', fewOnes.incremLhsParameterSet 2 2 fewOnesInitial = some st' ∧
        st'.fullRanks 1 1 = 3 ∧ st'.fullRanks 1 3 = 4 ∧
        st'.fullSamples 1 1 = 1 ∧ st'.fullSamples 3 1 = 0 ∧
        ¬ ∀ s < 4, ∀ s' < 4, st'.fullSamples s 1 < st'.fullSamples s' 1 →
          st'.fullRanks 1 s < st'.fullRanks 1 s' := by
  refine ⟨fewOnes_documented, initial_latin fewOnes_documented, _, rfl, ?_⟩
  decide +kernel

end Dakota.Sampling
