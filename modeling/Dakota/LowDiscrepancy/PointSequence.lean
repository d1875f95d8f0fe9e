import Dakota.LowDiscrepancy.Rank1Lattice
import Dakota.LowDiscrepancy.Scramble

/-!
# Low-discrepancy sequences

What `LowDiscrepancySequence` (`src/src/LowDiscrepancySequence.hpp`) has in all derived classes: the
checks of `get_points`, and the point of an index, in the column that belongs to it (`place`).

* `DigitalNet.getPoints_toSequence`, `Rank1Lattice.getPoints_toSequence`: digital nets and lattices
  are such sequences. In the natural order of a digital net, the iteration computes the point of the
  column `gray i` in its step `i`.
-/

namespace Dakota.LowDiscrepancy

open GrayCode

/-- A sequence, with the state that `randomize` changes. -/
structure PointSequence (σ K : Type) where
  mMax : ℕ
  dMax : ℕ
  /-- The numbers of points that the ordering allows. -/
  validSize : ℕ → Bool
  /-- The column that step `i` of the sequence belongs to, in a matrix of all points. -/
  place : ℕ → ℕ
  /-- The point of a column. -/
  point : σ → ℕ → ℕ → K
  randomize : σ → σ
  place_injective : Function.Injective place
  place_lt : ∀ {n i}, n < 2 ^ 31 → validSize n → i < n → place i < n

namespace PointSequence

variable {σ K : Type} (seq : PointSequence σ K)

/-- `unsafe_get_points`: columns of the matrix `points`, and what is written there. -/
def unsafeGetPoints (s : σ) (nMin nMax numCols : ℕ) :
    Except SequenceError (List (ℤ × (ℕ → K))) :=
  if seq.validSize numCols then
    .ok ((List.range' nMin (nMax - nMin)).map fun i =>
      ((seq.place i : ℤ) - nMin, seq.point s (seq.place i)))
  else .error .notPowerOfTwo

/-- `get_points(nMin, nMax, points)` -/
def getPoints (s : σ) (nMin nMax dimension numCols : ℕ) :
    Except SequenceError (List (ℤ × (ℕ → K))) := do
  checkSizes seq.mMax seq.dMax nMin nMax dimension numCols
  seq.unsafeGetPoints s nMin nMax numCols

end PointSequence

/-! ## Instances -/

/-- `scrambledGeneratingMatrices` and `digitalShift` -/
abbrev NetState := (ℕ → ℕ → BitVec 64) × (ℕ → BitVec 64)

namespace DigitalNet

/-- The net with other random data. -/
def withState (net : DigitalNet) (s : NetState) : DigitalNet :=
  { net with scrambledGeneratingMatrices := s.1, digitalShift := s.2 }

def toSequence (net : DigitalNet) (randomize : NetState → NetState) : PointSequence NetState ℚ where
  mMax := net.mMax
  dMax := net.dMax
  validSize n := !(net.ordering = .natural && !ispow2 (.ofNat 32 n))
  place := net.reorder
  point s x j := DigitalNetData.coordinate ((net.withState s).select ((net.withState s).selection x) j ^^^ s.2 j)
  randomize := randomize
  place_injective := reorder_injective
  place_lt := fun {n i} hn hvalid hi => by
    rw [Bool.not_eq_true', Bool.and_eq_false_iff, decide_eq_false_iff_not, Bool.not_eq_false'] at hvalid
    exact (reorder_mem (Nat.zero_le n) (by omega)
      (fun hord => hvalid.resolve_left (not_not.mpr hord)) (.inr (.inl rfl)) (Nat.zero_le _) hi).2

theorem column_eq_sub {nMin idx : ℕ} (hmin : nMin < 2 ^ 31) (hidx : idx < 2 ^ 31) :
    column nMin idx = (idx : ℤ) - nMin := by
  rw [column]
  exact Int.bmod_eq_of_le (by omega) (by omega)

/-- The writes of a digital net, with the coordinates of the points. -/
theorem getPoints_toSequence {net : DigitalNet} {randomize : NetState → NetState} {s : NetState}
    {nMin nMax dimension numCols : ℕ} (hle : nMin ≤ nMax) (hmax : nMax < 2 ^ 31) :
    (net.toSequence randomize).getPoints s nMin nMax dimension numCols =
      ((net.withState s).getPoints nMin nMax dimension numCols).map
        fun writes : List (Int × Point) =>
          writes.map fun w => (w.1, fun j => DigitalNetData.coordinate (w.2 j)) := by
  unfold PointSequence.getPoints getPoints
  show (checkSizes net.mMax net.dMax nMin nMax dimension numCols >>= fun _ => _) =
    Except.map _ (checkSizes net.mMax net.dMax nMin nMax dimension numCols >>= fun _ => _)
  cases hsizes : checkSizes net.mMax net.dMax nMin nMax dimension numCols with
  | error e => rfl
  | ok u =>
    have hpow : nMax ≤ 2 ^ net.mMax := by
      unfold checkSizes at hsizes
      split_ifs at hsizes with h₁
      exact Nat.not_lt.mp h₁
    show (if !(net.ordering = .natural && !ispow2 (.ofNat 32 numCols)) then _ else _) =
      Except.map _ (if net.ordering = .natural && !ispow2 (.ofNat 32 numCols) then _ else _)
    by_cases hnatural : (net.ordering = .natural && !ispow2 (.ofNat 32 numCols)) = true
    · rw [if_pos hnatural, if_neg (by rw [hnatural]; decide)]
      rfl
    · rw [if_neg hnatural, if_pos (by rw [eq_false_of_ne_true hnatural]; rfl)]
      refine congrArg Except.ok ?_
      rw [pointsLoop_eq _ _ (by omega) (by rw [Nat.add_sub_cancel' hle]; exact hpow)]
      refine Eq.trans ?_ List.map_map.symm
      refine List.map_congr_left fun i hi => ?_
      have hi31 : i < 2 ^ 31 := by
        have := (List.mem_range'_1.mp hi).2
        omega
      have hcol := column_eq_sub (show nMin < 2 ^ 31 by omega) (@reorder_lt net _ _ hi31)
      refine Prod.ext hcol.symm ?_
      funext j
      show DigitalNetData.coordinate ((net.withState s).select _ j ^^^ s.2 j) =
        DigitalNetData.coordinate ((net.withState s).select (gray i) j ^^^ s.2 j)
      rw [@gray_eq_selection (net.withState s) i]
      rfl

end DigitalNet

namespace Rank1Lattice

def toSequence (lat : Rank1Lattice) (randomize : (ℕ → ℚ) → ℕ → ℚ) : PointSequence (ℕ → ℚ) ℚ where
  mMax := lat.mMax
  dMax := lat.dMax
  validSize _ := true
  place i := i
  point shift x := { lat with randomShift := shift }.point (.ofNat 32 x)
  randomize := randomize
  place_injective _ _ h := h
  place_lt _ _ hi := hi

theorem getPoints_toSequence {lat : Rank1Lattice} {randomize : (ℕ → ℚ) → ℕ → ℚ} {shift : ℕ → ℚ}
    {nMin nMax dimension numCols : ℕ} :
    (lat.toSequence randomize).getPoints shift nMin nMax dimension numCols =
      (Rank1Lattice.getPoints { lat with randomShift := shift } nMin nMax dimension numCols).map
        fun writes : List (ℕ × (ℕ → ℚ)) => writes.map fun w => ((w.1 : ℤ), w.2) := by
  unfold PointSequence.getPoints getPoints
  show (checkSizes lat.mMax lat.dMax nMin nMax dimension numCols >>= fun _ => _) =
    Except.map _ (checkSizes lat.mMax lat.dMax nMin nMax dimension numCols >>= fun _ => _)
  cases checkSizes lat.mMax lat.dMax nMin nMax dimension numCols with
  | error e => rfl
  | ok u =>
    refine congrArg Except.ok ?_
    rw [unsafeGetPoints]
    refine Eq.trans ?_ List.map_map.symm
    refine List.map_congr_left fun i hi => ?_
    have hle := (List.mem_range'_1.mp hi).1
    exact Prod.ext (Int.ofNat_sub hle).symm rfl

end Rank1Lattice

end Dakota.LowDiscrepancy
