import Mathlib
import Dakota.Lib.Scatter

/-!
# Strata of the unit interval, and ranks

* `InStratum`: the strata of equal width, numbered from one. They are disjoint
  (`InStratum.unique`), and a stratum is two strata of half the width (`InStratum.halve`).
* `RanksOf`: numbers for `n` samples that use each of `1` to `n` once. Two sets of samples that take
  different halves of each stratum have ranks together (`RanksOf.merge`).
* `ranksOf_idxOf`, `idxOf_lt_idxOf`: positions in a sorted list of the samples are ranks, and follow
  the order of the values.
-/

namespace Dakota

variable {K : Type} [Field K] [LinearOrder K] {n : ℕ} {r r' : ℤ} {u : K}

def InStratum (n : ℕ) (r : ℤ) (u : K) : Prop := ((r : K) - 1) / n ≤ u ∧ u < r / n

/-- The samples `0` to `n - 1` have the ranks `1` to `n`, each once. -/
def RanksOf (n : ℕ) (rank : ℕ → ℤ) : Prop := Set.BijOn rank (Set.Iio n) (Set.Icc 1 n)

section

variable [IsStrictOrderedRing K]

theorem inStratum_iff (hn : 0 < n) : InStratum n r u ↔ (r : K) - 1 ≤ u * n ∧ u * n < r := by
  have hpos : (0 : K) < n := Nat.cast_pos.mpr hn
  rw [InStratum, div_le_iff₀ hpos, lt_div_iff₀ hpos]

theorem InStratum.unique (hn : 0 < n) (h : InStratum n r u) (h' : InStratum n r' u) : r = r' := by
  obtain ⟨hlow, hhigh⟩ := (inStratum_iff hn).mp h
  obtain ⟨hlow', hhigh'⟩ := (inStratum_iff hn).mp h'
  have hle : (r : K) < r' + 1 := by linarith
  have hge : (r' : K) < r + 1 := by linarith
  norm_cast at hle hge
  omega

/-- A value at an offset from the upper end of a stratum. -/
theorem inStratum_offset {offset : K} (hn : 0 < n) (hpos : 0 < offset) (hle : offset ≤ 1) :
    InStratum n r ((r - offset) / n) := by
  have hne : (n : K) ≠ 0 := Nat.cast_ne_zero.mpr hn.ne'
  rw [inStratum_iff hn, div_mul_cancel₀ _ hne]
  constructor <;> linarith

/-- A value is in the lower or in the upper half of its stratum. -/
theorem InStratum.halve (hn : 0 < n) (h : InStratum n r u) :
    InStratum (n + n) (if u < ((2 * r - 1 : ℤ) : K) / (2 * n : ℕ) then 2 * r - 1 else 2 * r) u := by
  obtain ⟨hlow, hhigh⟩ := (inStratum_iff hn).mp h
  have hpos : (0 : K) < (2 * n : ℕ) := Nat.cast_pos.mpr (by omega)
  rw [inStratum_iff (by omega)]
  split_ifs with hhalf
  · rw [lt_div_iff₀ hpos] at hhalf
    push_cast at hhalf ⊢
    constructor <;> linarith
  · rw [not_lt, div_le_iff₀ hpos] at hhalf
    push_cast at hhalf ⊢
    constructor <;> linarith

/-- With one value for each rank, in the stratum of the rank, each stratum has one value. -/
theorem RanksOf.existsUnique {rank : ℕ → ℤ} {value : ℕ → K} (hrank : RanksOf n rank)
    (hstratum : ∀ s < n, InStratum n (rank s) (value s)) (hr : r ∈ Set.Icc (1 : ℤ) n) :
    ∃! s, s < n ∧ InStratum n r (value s) := by
  obtain ⟨s, hs, rfl⟩ := hrank.surjOn hr
  refine ⟨s, ⟨hs, hstratum s hs⟩, fun s' ⟨hs', hin⟩ => ?_⟩
  have hn : 0 < n := Nat.zero_lt_of_lt hs'
  exact hrank.injOn hs' hs ((hstratum s' hs').unique hn hin)

end

/-! ## Ranks -/

theorem RanksOf.mem {rank : ℕ → ℤ} {s : ℕ} (h : RanksOf n rank) (hs : s < n) :
    1 ≤ rank s ∧ rank s ≤ n := h.mapsTo hs

theorem RanksOf.congr {rank rank' : ℕ → ℤ} (h : RanksOf n rank) (heq : ∀ s < n, rank s = rank' s) :
    RanksOf n rank' := Set.BijOn.congr h heq

/-- Samples in the order of their ranks. -/
theorem ranksOf_succ : RanksOf n fun s => (s : ℤ) + 1 := by
  refine ⟨fun s hs => ?_, fun s hs s' hs' heq => ?_, fun r hr => ⟨(r - 1).toNat, ?_, ?_⟩⟩
  · rw [Set.mem_Iio] at hs
    refine Set.mem_Icc.mpr ⟨?_, ?_⟩ <;> dsimp only <;> omega
  · simpa using heq
  · rw [Set.mem_Icc] at hr
    exact Set.mem_Iio.mpr (by omega)
  · rw [Set.mem_Icc] at hr
    dsimp only
    omega

/-- Ranks in halves of strata: where `lower` holds, the old samples are in the lower halves, and the
new ones in the upper halves. -/
theorem RanksOf.merge {old new : ℕ → ℤ} (hold : RanksOf n old) (hnew : RanksOf n new)
    (lower : ℤ → Bool) :
    RanksOf (n + n) fun s =>
      if s < n then if lower (old s) then 2 * old s - 1 else 2 * old s
      else if lower (new (s - n)) then 2 * new (s - n) else 2 * new (s - n) - 1 := by
  refine ⟨fun s hs => ?_, fun s hs s' hs' heq => ?_, fun r hr => ?_⟩
  · rw [Set.mem_Iio] at hs
    rw [Set.mem_Icc]
    by_cases hlt : s < n
    · have := hold.mem hlt
      grind
    · have := hnew.mem (show s - n < n by omega)
      grind
  · rw [Set.mem_Iio] at hs hs'
    by_cases hlt : s < n <;> by_cases hlt' : s' < n
    · simp only [hlt, hlt', if_true] at heq
      exact hold.injOn hlt hlt' (by grind)
    · -- one in the lower half of a stratum, the other in the upper half
      simp only [hlt, hlt', if_true, if_false] at heq
      exact absurd heq (by grind)
    · simp only [hlt, hlt', if_true, if_false] at heq
      exact absurd heq (by grind)
    · simp only [hlt, hlt', if_false] at heq
      have := hnew.injOn (show s - n < n by omega) (show s' - n < n by omega) (by grind)
      omega
  · rw [Set.mem_Icc] at hr
    have hhalf : (r + 1) / 2 ∈ Set.Icc (1 : ℤ) n := by
      rw [Set.mem_Icc]
      omega
    obtain ⟨s, hs, hsr⟩ := hold.surjOn hhalf
    obtain ⟨t, ht, htr⟩ := hnew.surjOn hhalf
    rw [Set.mem_Iio] at hs ht
    by_cases hside : (if lower ((r + 1) / 2) then 2 * ((r + 1) / 2) - 1 else 2 * ((r + 1) / 2)) = r
    · refine ⟨s, Set.mem_Iio.mpr (by omega), ?_⟩
      simp only [hs, if_true, hsr]
      exact hside
    · refine ⟨n + t, Set.mem_Iio.mpr (by omega), ?_⟩
      simp only [show ¬ n + t < n by omega, if_false, Nat.add_sub_cancel_left, htr]
      grind

/-! ## Ranks by sorting -/

variable {sorted : List ℕ} {value : ℕ → K}

/-- `slots[sorted[s]] = s` for all positions. -/
theorem scatter_zipIdx_swap {slots : ℕ → ℕ} {s : ℕ} (hnodup : sorted.Nodup) (hs : s ∈ sorted) :
    scatter slots sorted.zipIdx s = sorted.idxOf s := by
  refine scatter_of_mem ?_ fun i hi => ?_
  · rw [List.mk_mem_zipIdx_iff_getElem?, List.getElem?_idxOf hs]
  · rw [List.mk_mem_zipIdx_iff_getElem?, List.getElem?_eq_some_iff] at hi
    obtain ⟨hlt, rfl⟩ := hi
    exact (hnodup.idxOf_getElem i hlt).symm

theorem ranksOf_idxOf (hperm : sorted.Perm (List.range n)) :
    RanksOf n fun s => (sorted.idxOf s : ℤ) + 1 := by
  have hlength : sorted.length = n := by rw [hperm.length_eq, List.length_range]
  have hnodup : sorted.Nodup := hperm.nodup_iff.mpr List.nodup_range
  have hmem {s : ℕ} (hs : s < n) : s ∈ sorted := hperm.mem_iff.mpr (List.mem_range.mpr hs)
  refine ⟨fun s hs => ?_, fun s hs s' hs' heq => ?_, fun r hr => ?_⟩
  · have := List.idxOf_lt_length_of_mem (hmem hs)
    refine Set.mem_Icc.mpr ⟨?_, ?_⟩ <;> dsimp only <;> omega
  · exact (List.idxOf_inj (hmem hs)).mp (by simpa using heq)
  · rw [Set.mem_Icc] at hr
    have hlt : (r - 1).toNat < sorted.length := by omega
    refine ⟨sorted[(r - 1).toNat], ?_, ?_⟩
    · exact List.mem_range.mp (hperm.mem_iff.mp (List.getElem_mem hlt))
    · simp only [hnodup.idxOf_getElem]
      omega

omit [Field K] in
theorem idxOf_lt_idxOf {s s' : ℕ} (hperm : sorted.Perm (List.range n))
    (hsorted : sorted.Pairwise fun s s' => ¬ value s' < value s) (hs : s < n) (hs' : s' < n)
    (hlt : value s < value s') : sorted.idxOf s < sorted.idxOf s' := by
  have hmem {s : ℕ} (hs : s < n) : s ∈ sorted := hperm.mem_iff.mpr (List.mem_range.mpr hs)
  have hidx := List.idxOf_lt_length_of_mem (hmem hs)
  have hidx' := List.idxOf_lt_length_of_mem (hmem hs')
  rcases lt_trichotomy (sorted.idxOf s) (sorted.idxOf s') with h | h | h
  · exact h
  · rw [(List.idxOf_inj (hmem hs)).mp h] at hlt
    exact absurd hlt (lt_irrefl _)
  · have hnot := List.pairwise_iff_getElem.mp hsorted _ _ hidx' hidx h
    rw [List.getElem_idxOf hidx, List.getElem_idxOf hidx'] at hnot
    exact absurd hlt hnot

end Dakota
