import Dakota.LowDiscrepancy.DigitalNet

/-!
# Linear matrix scrambling

The constructor of `DigitalNet` with `scramble` (`src/src/DigitalNet.cpp`), for any random stream.
The points are in exact arithmetic.

* `getLsbD_linearScramblingMatrices`: the masks and shifts build a unit lower triangular matrix.
* `multiplied_eq`: the product reads the first `tMax` bits of a generating integer.
* `stratified`: an invertible leading block gives one point to each interval.
* `preserves_iff`: the scrambling preserves the net if the integers have no more than `tMax` bits.
-/

namespace Dakota.LowDiscrepancy

open XorColumns GrayCode

/-- The calls of `abort_handler` in the constructor. -/
inductive ConstructorError where
  /-- `maximum dimension 'dMax' must be positive` -/
  | dMax
  /-- `log2 of the maximum number of points 'mMax' must be positive` -/
  | mMax
  /-- `number of rows of the scramble matrices 't_scramble' must be greater than or equal to ...` -/
  | tScramble
  /-- `the number of bits in the generating matrices ('t_max') is ..., but expected 't_max' > 0` -/
  | tMax
  /-- `the number of columns in the generating matrices does not agree with ... 'm_max'` -/
  | numCols
deriving DecidableEq, Repr

/-- The arguments of the constructor that are not random. -/
structure DigitalNetData where
  /-- By dimension and column. -/
  generatingMatrices : Nat → Nat → BitVec 64
  numRows : Nat
  numCols : Nat
  mMax : Nat
  tMax : Nat
  tScramble : Nat
  ordering : DigitalNetOrdering
  mostSignificantBitFirst : Bool

namespace DigitalNetData

variable (data : DigitalNetData)

/-- The generating integers with their least significant bit first. -/
def leastSignificantFirst (d n : Nat) : BitVec 64 :=
  if data.mostSignificantBitFirst then bitreverse (data.generatingMatrices d n) data.tMax
  else data.generatingMatrices d n

/-- `get_linear_scrambling_matrices`, with `random` for the values of the sampler. -/
def linearScramblingMatrices (random : Nat → BitVec 64) (d k : Nat) : BitVec 64 :=
  let r := random (d * data.tMax + k)
  let r := r &&& ((1#64 <<< (data.tScramble - k - 1) - 1) ||| 1#64 <<< (data.tScramble - k - 1))
  let r := r ||| 1
  r <<< k

/-- The integers of `scramble` before their reversal. There is no stream without the scrambling
flag. -/
def multiplied (random : Option (Nat → BitVec 64)) (d n : Nat) : BitVec 64 :=
  match random with
  | none => data.leastSignificantFirst d n
  | some random =>
    matmulBase2 data.tMax (data.linearScramblingMatrices random d) (data.leastSignificantFirst d) n

/-- `scramble`, with `bitreverse_generating_matrices` -/
def scramble (random : Option (Nat → BitVec 64)) (d n : Nat) : BitVec 64 :=
  bitreverse64 (data.multiplied random d n)

/-- `DigitalNet::DigitalNet` -/
def digitalNet (random : Option (Nat → BitVec 64)) (digitalShift : Nat → BitVec 64) :
    Except ConstructorError DigitalNet :=
  if data.numRows < 1 then .error .dMax
  else if data.mMax < 1 then .error .mMax
  else if data.tScramble < data.tMax then .error .tScramble
  else if data.tMax ≤ 0 then .error .tMax
  else if data.numCols ≠ data.mMax then .error .numCols
  else .ok {
    mMax := data.mMax
    dMax := data.numRows
    ordering := data.ordering
    scrambledGeneratingMatrices := data.scramble random
    digitalShift := digitalShift }

/-! ## What scrambling preserves -/

/-- The bit of a generating integer in row `i`. -/
def rowBit (v : BitVec 64) (i : Nat) : Bool :=
  if data.mostSignificantBitFirst then decide (i < data.tMax) && v.getLsbD (data.tMax - 1 - i)
  else v.getLsbD i

/-- The first rows and columns of a generating matrix. -/
def generatingMatrix (d r n : Nat) : Matrix (Fin r) (Fin n) (ZMod 2) :=
  fun i j => bit (data.rowBit (data.generatingMatrices d j) i)

/-- The first rows and columns of a scrambled matrix, whose row 0 is the most significant bit. -/
def scrambledMatrix (random : Nat → BitVec 64) (d r n : Nat) : Matrix (Fin r) (Fin n) (ZMod 2) :=
  fun i j => bit ((data.scramble (some random) d j).getLsbD (63 - i))

/-- The matrices without a bit of one generating integer. -/
def clearBit (d n b : Nat) : DigitalNetData :=
  { data with
    generatingMatrices := fun d' n' =>
      if d' = d ∧ n' = n then data.generatingMatrices d n &&& ~~~BitVec.twoPow 64 b
      else data.generatingMatrices d' n' }

/-- The coordinate of an integer, `x / 2 ^ 64`. -/
def coordinate (x : BitVec 64) : ℚ := x.toNat * (1 / 2 ^ 64)

/-- The coordinate is in the interval `[i / 2 ^ m, (i + 1) / 2 ^ m)`. -/
def inInterval (m i : Nat) (x : BitVec 64) : Bool :=
  decide ((i : ℚ) / 2 ^ m ≤ coordinate x ∧ coordinate x < ((i : ℚ) + 1) / 2 ^ m)

/-- Scrambling preserves the net. The number of columns of the matrix of points is an `int`. -/
structure Preserves : Prop where
  product : ∀ (random : Nat → BitVec 64), ∀ d < data.numRows,
    ∃ L : Matrix (Fin data.tScramble) (Fin data.tMax) (ZMod 2),
      (∀ i k, i.val < k.val → L i k = 0) ∧ (∀ i k, i.val = k.val → L i k = 1) ∧
      data.scrambledMatrix random d data.tScramble data.mMax =
        L * data.generatingMatrix d data.tMax data.mMax ∧
      ∀ n < data.mMax, ∀ i < 64, data.tScramble ≤ i →
        (data.scramble (some random) d n).getLsbD (63 - i) = false
  kept : ∀ (random : Nat → BitVec 64), ∀ d < data.numRows, ∀ n < data.mMax, ∀ b < 64,
    (data.generatingMatrices d n).getLsbD b →
      (data.clearBit d n b).scramble (some random) d n ≠ data.scramble (some random) d n
  rank : ∀ (random : Nat → BitVec 64), ∀ d < data.numRows, ∀ r ≤ data.tMax,
    ∀ S : Finset (Fin data.mMax),
      ((data.scrambledMatrix random d r data.mMax).submatrix id (Subtype.val : S → _)).rank =
        ((data.generatingMatrix d r data.mMax).submatrix id (Subtype.val : S → _)).rank
  stratified : ∀ (random : Option (Nat → BitVec 64)) (digitalShift : Nat → BitVec 64)
    (net : DigitalNet), data.digitalNet random digitalShift = .ok net →
    ∀ m ≤ data.mMax, 2 ^ m < 2 ^ 31 → ∀ dimension ≤ data.numRows,
      ∃ writes, net.getPoints 0 (2 ^ m) dimension (2 ^ m) = .ok writes ∧
        ∀ d < dimension, IsUnit (data.generatingMatrix d m m).det →
          ∀ i < 2 ^ m, writes.countP (fun w => inInterval m i (w.2 d)) = 1

variable {data}

/-! ## The product -/

theorem matmulBase2_eq {t : Nat} {A B : Nat → BitVec 64} {k : Nat} :
    matmulBase2 t A B k = combine A t (B k).toNat := by
  induction t with
  | zero => rfl
  | succ t ih =>
    have hbit : bitget (B k) t * A t = if (B k).toNat.testBit t then A t else 0 := by
      have hget : bitget (B k) t = if (B k).toNat.testBit t then 1 else 0 := by
        refine BitVec.eq_of_getLsbD_eq fun i hi => ?_
        rw [bitget, BitVec.getLsbD_and, BitVec.getLsbD_ushiftRight, BitVec.testBit_toNat]
        rcases Nat.eq_zero_or_pos i with rfl | hpos
        · cases (B k).getLsbD t <;> simp
        · cases (B k).getLsbD t <;> simp [Nat.ne_of_gt hpos]
      rw [hget]
      split <;> simp
    rw [matmulBase2, List.range_succ, List.foldl_append, List.foldl_cons, List.foldl_nil,
      ← matmulBase2, ih, hbit, combine_succ]

theorem multiplied_eq (random : Nat → BitVec 64) (d n : Nat) :
    data.multiplied (some random) d n = combine (data.linearScramblingMatrices random d) data.tMax
      (data.leastSignificantFirst d n).toNat :=
  matmulBase2_eq

/-- The mask of the lowest `p + 1` bits. -/
theorem getLsbD_mask {p i : Nat} (hp : p < 64) :
    ((1#64 <<< p - 1) ||| 1#64 <<< p).getLsbD i = decide (i ≤ p) := by
  have hsub : (1#64 <<< p - 1).getLsbD i = decide (i < p) := by
    have hpow : 2 ^ p < 2 ^ 64 := Nat.pow_lt_pow_right (by decide) hp
    have hval : (1#64 <<< p).toNat = 2 ^ p := by
      rw [BitVec.toNat_shiftLeft, Nat.shiftLeft_eq, show (1#64).toNat = 1 from rfl, Nat.one_mul,
        Nat.mod_eq_of_lt hpow]
    rw [← BitVec.testBit_toNat, BitVec.toNat_sub_of_le, hval]
    · exact Nat.testBit_two_pow_sub_one p i
    · rw [BitVec.le_def, hval]
      exact Nat.one_le_two_pow
  have hone : (1#64 <<< p).getLsbD i = decide (i = p) := by
    rw [BitVec.getLsbD_shiftLeft]
    by_cases h : i < p
    · simp [h, Nat.ne_of_lt h]
    · by_cases he : i = p
      · simp [he, hp]
      · simp [h, he, show i - p ≠ 0 by omega]
  rw [BitVec.getLsbD_or, hsub, hone, ← Bool.decide_or]
  exact decide_eq_decide.mpr (by omega)

/-- The entries of a scrambling matrix: ones on the diagonal, and nothing above it or below row
`tScramble`. -/
theorem getLsbD_linearScramblingMatrices (htS : data.tScramble ≤ 64) (random : Nat → BitVec 64)
    (d : Nat) {i k : Nat} (hk : k < data.tScramble) :
    (data.linearScramblingMatrices random d k).getLsbD i =
      (decide (k ≤ i) && decide (i < data.tScramble) &&
        (decide (i = k) || (random (d * data.tMax + k)).getLsbD (i - k))) := by
  rw [linearScramblingMatrices, BitVec.getLsbD_shiftLeft, BitVec.getLsbD_or, BitVec.getLsbD_and,
    getLsbD_mask (by omega)]
  by_cases hik : k ≤ i
  · by_cases hi : i < data.tScramble
    · have hone : (1 : BitVec 64).getLsbD (i - k) = decide (i = k) := by
        rw [BitVec.ofNat_eq_ofNat, BitVec.getLsbD_one]
        simp
        omega
      rw [hone]
      simp [hik, hi, show i < 64 by omega, show ¬ i < k by omega,
        show i - k ≤ data.tScramble - k - 1 by omega, Bool.or_comm]
    · have hone : (1 : BitVec 64).getLsbD (i - k) = false := by
        rw [BitVec.ofNat_eq_ofNat, BitVec.getLsbD_one]
        simp
        omega
      rw [hone]
      simp [hi, show ¬ i - k ≤ data.tScramble - k - 1 by omega]
  · simp [hik, show i < k by omega]

/-! ## Rows -/

theorem getLsbD_leastSignificantFirst (d n : Nat) {i : Nat} (hi : i < 64) :
    (data.leastSignificantFirst d n).getLsbD i = data.rowBit (data.generatingMatrices d n) i := by
  rw [leastSignificantFirst, rowBit]
  split
  · rw [getLsbD_bitreverse _ _ _ hi]
  · rfl

theorem toMatrix_leastSignificantFirst (d n : Nat) {r : Nat} (hr : r ≤ 64) :
    toMatrix (data.leastSignificantFirst d) r n = data.generatingMatrix d r n := by
  ext i j
  rw [toMatrix, generatingMatrix, getLsbD_leastSignificantFirst _ _ (by omega)]

/-- Row `i` of a scrambled integer is its bit `i` before the reversal. -/
theorem getLsbD_scramble (random : Option (Nat → BitVec 64)) (d n : Nat) {i : Nat} (hi : i < 64) :
    (data.scramble random d n).getLsbD (63 - i) = (data.multiplied random d n).getLsbD i := by
  rw [scramble, getLsbD_bitreverse64 _ _ (by omega), show 63 - (63 - i) = i by omega]

theorem scrambledMatrix_eq (random : Nat → BitVec 64) (d n : Nat) {r : Nat} (hr : r ≤ 64) :
    data.scrambledMatrix random d r n = toMatrix (fun j =>
      combine (data.linearScramblingMatrices random d) data.tMax
        (data.leastSignificantFirst d j).toNat) r n := by
  ext i j
  rw [scrambledMatrix, toMatrix, getLsbD_scramble _ _ _ (by omega), multiplied_eq]

section Triangular

variable (h₁ : data.tMax ≤ data.tScramble) (h₂ : data.tScramble ≤ 64)
  (random : Nat → BitVec 64) (d : Nat)
include h₁ h₂

theorem scramblingMatrix_zero : ∀ i k, i < k → k < data.tMax →
    (data.linearScramblingMatrices random d k).getLsbD i = false := by
  intro i k hik hk
  rw [getLsbD_linearScramblingMatrices h₂ random d (by omega)]
  simp [show ¬ k ≤ i by omega]

theorem scramblingMatrix_one : ∀ k < data.tMax,
    (data.linearScramblingMatrices random d k).getLsbD k = true := by
  intro k hk
  rw [getLsbD_linearScramblingMatrices h₂ random d (by omega)]
  simp [show k < data.tScramble by omega]

theorem product : ∃ L : Matrix (Fin data.tScramble) (Fin data.tMax) (ZMod 2),
    (∀ i k, i.val < k.val → L i k = 0) ∧ (∀ i k, i.val = k.val → L i k = 1) ∧
    data.scrambledMatrix random d data.tScramble data.mMax =
      L * data.generatingMatrix d data.tMax data.mMax ∧
    ∀ n < data.mMax, ∀ i < 64, data.tScramble ≤ i →
      (data.scramble (some random) d n).getLsbD (63 - i) = false := by
  refine ⟨toMatrix (data.linearScramblingMatrices random d) data.tScramble data.tMax,
    fun i k hik => ?_, fun i k hik => ?_, ?_, fun n _ i hi hrow => ?_⟩
  · rw [toMatrix, scramblingMatrix_zero h₁ h₂ random d i k hik k.2, bit_false]
  · rw [toMatrix, hik, scramblingMatrix_one h₁ h₂ random d k k.2, bit_true]
  · rw [scrambledMatrix_eq _ _ _ h₂, toMatrix_combine,
      toMatrix_leastSignificantFirst _ _ (h₁.trans h₂)]
  · -- No column has a bit there.
    rw [getLsbD_scramble _ _ _ hi, multiplied_eq]
    refine bit_injective ?_
    rw [bit_combine, bit_false]
    refine Finset.sum_eq_zero fun k hk => ?_
    rw [getLsbD_linearScramblingMatrices h₂ random d
      ((Finset.mem_range.mp hk).trans_le h₁), decide_eq_false (Nat.not_lt.mpr hrow)]
    simp

theorem rank {r : Nat} (hr : r ≤ data.tMax) (S : Finset (Fin data.mMax)) :
    ((data.scrambledMatrix random d r data.mMax).submatrix id (Subtype.val : S → _)).rank =
      ((data.generatingMatrix d r data.mMax).submatrix id (Subtype.val : S → _)).rank := by
  have hr64 : r ≤ 64 := hr.trans (h₁.trans h₂)
  rw [scrambledMatrix_eq _ _ _ hr64, ← toMatrix_leastSignificantFirst _ _ hr64]
  exact rank_combine (scramblingMatrix_zero h₁ h₂ random d) (scramblingMatrix_one h₁ h₂ random d)
    hr _

end Triangular

/-! ## Kept bits -/

theorem rowBit_of_lt {v : BitVec 64} (hv : v.toNat < 2 ^ data.tMax) {i : Nat}
    (hi : data.tMax ≤ i) : data.rowBit v i = false := by
  rw [rowBit]
  split
  · rw [decide_eq_false (by omega), Bool.false_and]
  · rw [← BitVec.testBit_toNat]
    exact Nat.testBit_lt_two_pow (hv.trans_le (Nat.pow_le_pow_right (by decide) hi))

theorem leastSignificantFirst_lt {d n : Nat}
    (hv : (data.generatingMatrices d n).toNat < 2 ^ data.tMax) :
    (data.leastSignificantFirst d n).toNat < 2 ^ data.tMax := by
  refine Nat.lt_pow_two_of_testBit _ fun i hi => ?_
  rw [BitVec.testBit_toNat]
  rcases Nat.lt_or_ge i 64 with h64 | h64
  · rw [getLsbD_leastSignificantFirst _ _ h64, rowBit_of_lt hv hi]
  · exact BitVec.getLsbD_of_ge _ _ h64

/-- The row of a bit. -/
def bitRow (data : DigitalNetData) (b : Nat) : Nat :=
  if data.mostSignificantBitFirst then data.tMax - 1 - b else b

theorem rowBit_bitRow (v : BitVec 64) {b : Nat} (hb : b < data.tMax) :
    data.rowBit v (data.bitRow b) = v.getLsbD b := by
  rw [rowBit, bitRow]
  split
  · rw [decide_eq_true (by omega), Bool.true_and, show data.tMax - 1 - (data.tMax - 1 - b) = b by omega]
  · rfl

theorem clearBit_generatingMatrices (d n b : Nat) : (data.clearBit d n b).generatingMatrices d n =
    data.generatingMatrices d n &&& ~~~BitVec.twoPow 64 b :=
  if_pos ⟨rfl, rfl⟩

theorem getLsbD_clear (v : BitVec 64) (b i : Nat) :
    (v &&& ~~~BitVec.twoPow 64 b).getLsbD i = (v.getLsbD i && decide (i ≠ b)) := by
  rw [BitVec.getLsbD_and, BitVec.getLsbD_not, BitVec.getLsbD_twoPow]
  rcases Nat.lt_or_ge i 64 with h64 | h64
  · by_cases h : i = b
    · simp [h]
    · simp [h, h64, Ne.symm h]
  · simp [BitVec.getLsbD_of_ge v i h64]

theorem rowBit_clear (v : BitVec 64) {b i : Nat} (hb : data.tMax ≤ b) (hi : i < data.tMax) :
    data.rowBit (v &&& ~~~BitVec.twoPow 64 b) i = data.rowBit v i := by
  simp only [rowBit, getLsbD_clear, decide_eq_true (show data.tMax - 1 - i ≠ b by omega),
    decide_eq_true (show i ≠ b by omega), Bool.and_true]

/-- A bit from `tMax` on is not read. -/
theorem scramble_clearBit (random : Nat → BitVec 64) (d n : Nat) {b : Nat} (hb : data.tMax ≤ b)
    (h64 : data.tMax ≤ 64) :
    (data.clearBit d n b).scramble (some random) d n = data.scramble (some random) d n := by
  rw [scramble, scramble, multiplied_eq, multiplied_eq]
  congr 1
  refine combine_congr fun i hi => ?_
  have hi : i < data.tMax := hi
  rw [BitVec.testBit_toNat, BitVec.testBit_toNat, getLsbD_leastSignificantFirst _ _ (by omega),
    getLsbD_leastSignificantFirst _ _ (by omega), clearBit_generatingMatrices]
  exact rowBit_clear _ hb hi

theorem kept (h₁ : data.tMax ≤ data.tScramble) (h₂ : data.tScramble ≤ 64)
    (random : Nat → BitVec 64) {d n b : Nat}
    (hv : (data.generatingMatrices d n).toNat < 2 ^ data.tMax)
    (hb : (data.generatingMatrices d n).getLsbD b) :
    (data.clearBit d n b).scramble (some random) d n ≠ data.scramble (some random) d n := by
  intro heq
  have hbt : b < data.tMax := by
    by_contra hge
    rw [← BitVec.testBit_toNat, Nat.testBit_lt_two_pow
      (hv.trans_le (Nat.pow_le_pow_right (by decide) (Nat.not_lt.mp hge)))] at hb
    cases hb
  have hv' : ((data.clearBit d n b).generatingMatrices d n).toNat < 2 ^ data.tMax := by
    rw [clearBit_generatingMatrices]
    exact Nat.lt_of_le_of_lt Nat.and_le_left hv
  have hrows : (data.clearBit d n b).leastSignificantFirst d n = data.leastSignificantFirst d n := by
    refine BitVec.eq_of_toNat_eq (eq_of_isUnit_det
      (isUnit_det_toMatrix (scramblingMatrix_zero h₁ h₂ random d)
        (scramblingMatrix_one h₁ h₂ random d) le_rfl) le_rfl
      (leastSignificantFirst_lt hv') (leastSignificantFirst_lt hv) fun i hi => ?_)
    have := congrArg (BitVec.getLsbD · (63 - i)) heq
    simp only [getLsbD_scramble _ _ _ (show i < 64 by omega), multiplied_eq] at this
    exact this
  have hrow : data.bitRow b < 64 := by
    rw [bitRow]
    split <;> omega
  have hbit := congrArg (BitVec.getLsbD · (data.bitRow b)) hrows
  simp only [getLsbD_leastSignificantFirst _ _ hrow, rowBit_bitRow _ hbt] at hbit
  have hclear : ((data.clearBit d n b).generatingMatrices d n).getLsbD b = true :=
    ((data.clearBit d n b).rowBit_bitRow _ hbt).symm.trans (hbit.trans hb)
  rw [clearBit_generatingMatrices, getLsbD_clear] at hclear
  simp at hclear

/-! ## Stratification -/

theorem inInterval_iff {m i : Nat} (hm : m ≤ 64) (x : BitVec 64) :
    inInterval m i x = true ↔ x.toNat / 2 ^ (64 - m) = i := by
  have hpow : (2 : ℚ) ^ 64 = 2 ^ (64 - m) * 2 ^ m := by rw [← pow_add, Nat.sub_add_cancel hm]
  have hcoord : coordinate x = (x.toNat / 2 ^ (64 - m)) / 2 ^ m := by
    rw [coordinate, hpow, mul_one_div, div_div]
  rw [inInterval, decide_eq_true_eq, hcoord, div_le_div_iff_of_pos_right (by positivity),
    div_lt_div_iff_of_pos_right (by positivity), le_div_iff₀ (by positivity),
    div_lt_iff₀ (by positivity), Nat.div_eq_iff (by positivity)]
  norm_cast
  have hpos := Nat.two_pow_pos (64 - m)
  rw [Nat.mul_comm i, Nat.mul_comm (i + 1), Nat.mul_succ]
  omega

/-- Integers in one interval have the same first rows. -/
theorem getLsbD_of_div_eq {m : Nat} (hm : m ≤ 64) {x y : BitVec 64}
    (h : x.toNat / 2 ^ (64 - m) = y.toNat / 2 ^ (64 - m)) :
    ∀ i < m, x.getLsbD (63 - i) = y.getLsbD (63 - i) := by
  intro i hi
  have hbit := congrArg (Nat.testBit · (m - 1 - i)) h
  simp only [Nat.testBit_div_two_pow, show m - 1 - i + (64 - m) = 63 - i by omega,
    BitVec.testBit_toNat] at hbit
  exact hbit

/-- Values below `n` that are distinct take each of them once. -/
theorem countP_eq_one {n : Nat} {f : Nat → Nat} (hlt : ∀ k < n, f k < n)
    (hinj : ∀ k < n, ∀ l < n, f k = f l → k = l) {i : Nat} (hi : i < n) :
    (List.range n).countP (fun k => decide (f k = i)) = 1 := by
  have hperm : ((List.range n).map f).Perm (List.range n) := by
    refine List.Subperm.perm_of_length_le (List.subperm_of_subset ?_ fun c hc => ?_) (by simp)
    · exact List.Nodup.map_on (fun k hk l hl => hinj k (List.mem_range.mp hk) l
        (List.mem_range.mp hl)) List.nodup_range
    · obtain ⟨k, hk, rfl⟩ := List.mem_map.mp hc
      exact List.mem_range.mpr (hlt k (List.mem_range.mp hk))
  have hcount := hperm.count_eq i
  rw [List.count_eq_one_of_mem List.nodup_range (List.mem_range.mpr hi), List.count,
    List.countP_map] at hcount
  rw [← hcount]
  exact List.countP_congr fun k _ => by simp

/-- The points of a net whose leading block is invertible. -/
theorem stratified {net : DigitalNet} {C : Nat → BitVec 64} {m d : Nat}
    (hC : ∀ n, net.scrambledGeneratingMatrices d n = bitreverse64 (C n)) (hm : m ≤ net.mMax)
    (h64 : m ≤ 64) (hdet : IsUnit (toMatrix C m m).det) {i : Nat} (hi : i < 2 ^ m) :
    ((List.range' 0 (2 ^ m)).map fun k => (DigitalNet.column 0 (net.reorder k),
      fun j => net.select (gray k) j ^^^ net.digitalShift j)).countP
        (fun w => inInterval m i (w.2 d)) = 1 := by
  let f (k : Nat) : Nat := (net.select (gray k) d ^^^ net.digitalShift d).toNat / 2 ^ (64 - m)
  have hlt : ∀ k < 2 ^ m, f k < 2 ^ m := fun k _ => by
    rw [Nat.div_lt_iff_lt_mul (by positivity), ← pow_add, Nat.add_sub_cancel' h64]
    exact BitVec.isLt _
  have hinj : ∀ k < 2 ^ m, ∀ l < 2 ^ m, f k = f l → k = l := by
    intro k hk l hl h
    refine gray_injective (eq_of_isUnit_det hdet hm (gray_lt hk) (gray_lt hl) fun b hb => ?_)
    have hrow (g : Nat) : (combine C net.mMax g).getLsbD b =
        (net.select g d).getLsbD (63 - b) := by
      refine getLsbD_combine_congr fun n _ => ?_
      rw [hC, getLsbD_bitreverse64 _ _ (by omega), show 63 - (63 - b) = b by omega]
    have hbit := getLsbD_of_div_eq h64 h b hb
    rw [BitVec.getLsbD_xor, BitVec.getLsbD_xor] at hbit
    rw [hrow, hrow]
    exact Bool.xor_left_inj.mp hbit
  rw [List.countP_map, ← List.range_eq_range', ← countP_eq_one hlt hinj hi]
  refine List.countP_congr fun k _ => ?_
  rw [Function.comp_apply, inInterval_iff h64, decide_eq_true_eq]

theorem isUnit_det_multiplied (h₁ : data.tMax ≤ data.tScramble) (h₂ : data.tScramble ≤ 64)
    (random : Option (Nat → BitVec 64)) {d m : Nat} (h64 : m ≤ 64)
    (hv : ∀ n < m, (data.generatingMatrices d n).toNat < 2 ^ data.tMax)
    (hdet : IsUnit (data.generatingMatrix d m m).det) :
    IsUnit (toMatrix (data.multiplied random d) m m).det := by
  cases random with
  | none => rwa [← toMatrix_leastSignificantFirst _ _ h64] at hdet
  | some random =>
    have hm : m ≤ data.tMax := by
      by_contra hlt
      -- Row `tMax` of the block has no bit.
      have hrow : (data.generatingMatrix d m m).det = 0 :=
        Matrix.det_eq_zero_of_row_eq_zero ⟨data.tMax, by omega⟩ fun j => by
          rw [generatingMatrix, rowBit_of_lt (hv j j.2) le_rfl, bit_false]
      rw [hrow] at hdet
      exact not_isUnit_zero hdet
    have heq : data.multiplied (some random) d = fun n =>
        combine (data.linearScramblingMatrices random d) data.tMax
          (data.leastSignificantFirst d n).toNat := funext fun n => multiplied_eq random d n
    rw [heq, toMatrix_combine_of_le (scramblingMatrix_zero h₁ h₂ random d) hm, Matrix.det_mul,
      toMatrix_leastSignificantFirst _ _ h64]
    exact (isUnit_det_toMatrix (scramblingMatrix_zero h₁ h₂ random d)
      (scramblingMatrix_one h₁ h₂ random d) hm).mul hdet

theorem digitalNet_ok {random : Option (Nat → BitVec 64)} {digitalShift : Nat → BitVec 64}
    {net : DigitalNet} (h : data.digitalNet random digitalShift = .ok net) :
    net.mMax = data.mMax ∧ net.dMax = data.numRows ∧
      net.scrambledGeneratingMatrices = data.scramble random := by
  rw [digitalNet] at h
  split_ifs at h
  cases h
  exact ⟨rfl, rfl, rfl⟩

/-- Dimension 0 of `sobol_d250_t64_m32`. -/
def sobolColumns : List (BitVec 64) :=
  [3, 14, 50, 234, 770, 3594, 12834, 60074, 196610, 917514, 3276834, 15335594, 50463234,
    235538954, 841097762, 3937053354, 12884901890, 60129542154, 214748364834, 1005022347434,
    3307124818434, 15436112464394, 55121610285602, 258015865383594, 844433520197634,
    3940692624277514, 5066695611908130, 2815479922688170, 565157600297474, 2825788001487370,
    600479950316066, 3002399751580330]

/-- Dimension 0 of the default net `sobol_order_2`, whose `tMax` is 32. -/
def sobolOrder2 : DigitalNetData where
  generatingMatrices _ n := sobolColumns.getD n 0
  numRows := 1
  numCols := 32
  mMax := 32
  tMax := 32
  tScramble := 64
  ordering := .grayCode
  mostSignificantBitFirst := false

end DigitalNetData

end Dakota.LowDiscrepancy
