import Dakota.Lib.GrayCode
import Dakota.Lib.Outcome
import Dakota.Lib.XorColumns
import Dakota.LowDiscrepancy.BitUtils

/-!
# Points of a digital net

`DigitalNet::unsafe_get_points` (`src/src/DigitalNet.cpp`) with the checks of
`LowDiscrepancySequence::get_points`, as the list of its writes: a column of the matrix `points`,
and the integers of the point, before their conversion to reals.

* The iteration is that of Antonov and Saleev. Its integers are the combinations of the columns of
  the generating matrix that the Gray code of the index selects (`point_next`).
* `getPoints_direct_iff`: in Gray code order, the columns are those of the range. In natural order
  the number of points has to be a power of two, but a range that starts neither at 0 nor at that
  number has writes outside the matrix.
-/

namespace Dakota.LowDiscrepancy

open XorColumns GrayCode

inductive DigitalNetOrdering where
  | natural
  | grayCode
deriving DecidableEq

structure DigitalNet where
  mMax : Nat
  dMax : Nat
  ordering : DigitalNetOrdering
  /-- By dimension and column. -/
  scrambledGeneratingMatrices : Nat → Nat → BitVec 64
  digitalShift : Nat → BitVec 64

/-- The calls of `abort_handler`. -/
inductive SequenceError where
  /-- `requested number of samples ... is larger than the maximum allowed number of points` -/
  | tooManyPoints
  /-- `this low-discrepancy sequence can only generate points in dimension ... or less` -/
  | dimension
  /-- `requested low-discrepancy points ..., but the provided matrix expects ... points.` -/
  | numColumns
  /-- `natural ordering requires the requested number of points to be a power of 2.` -/
  | notPowerOfTwo
deriving DecidableEq, Repr

/-- `UInt64Vector current_point`, by dimension. -/
abbrev Point := Nat → BitVec 64

/-- `LowDiscrepancySequence::check_sizes`, for a matrix of a dimension and a number of columns. -/
def checkSizes (mMax dMax nMin nMax dimension numCols : Nat) : Except SequenceError Unit :=
  if 2 ^ mMax < nMax then .error .tooManyPoints
  else if dMax < dimension then .error .dimension
  else if numCols ≠ nMax - nMin then .error .numColumns
  else .ok ()

namespace DigitalNet

variable (net : DigitalNet)

/-- `next`. The index is passed as an `int`. -/
def next (k : Nat) (currentPoint : Point) : Point :=
  let k := BitVec.ofNat 32 k
  if k = 0 then currentPoint
  else
    let n := countConsecutiveTrailingZeroBits k
    fun j => currentPoint j ^^^ net.scrambledGeneratingMatrices j n

/-- The point before the one with index `n`. -/
def pointBefore (n : Nat) : Point :=
  (List.range n).foldl (fun currentPoint k => net.next k currentPoint) fun _ => 0

/-- `reorder_natural` and `reorder_gray_code` -/
def reorder (k : Nat) : Nat :=
  match net.ordering with
  | .natural => binary2gray k
  | .grayCode => k

/-- The argument `idx - nMin` of the matrix, an `int`. -/
def column (nMin idx : Nat) : Int := ((idx : Int) - nMin).bmod (2 ^ 32)

/-- The second loop of `unsafe_get_points`, for the next `n` indices from `k` on. -/
def pointsLoop (nMin : Nat) : Nat → Nat → Point → List (Int × Point)
  | 0, _, _ => []
  | n + 1, k, currentPoint =>
    let currentPoint := net.next k currentPoint
    (column nMin (net.reorder k), fun j => currentPoint j ^^^ net.digitalShift j) ::
      pointsLoop nMin n (k + 1) currentPoint

/-- `unsafe_get_points` -/
def unsafeGetPoints (nMin nMax numCols : Nat) : Except SequenceError (List (Int × Point)) :=
  if net.ordering = .natural && !ispow2 (.ofNat 32 numCols) then .error .notPowerOfTwo
  else .ok (net.pointsLoop nMin (nMax - nMin) nMin (net.pointBefore nMin))

/-- `get_points(nMin, nMax, points)` -/
def getPoints (nMin nMax dimension numCols : Nat) : Except SequenceError (List (Int × Point)) := do
  checkSizes net.mMax net.dMax nMin nMax dimension numCols
  net.unsafeGetPoints nMin nMax numCols

/-- The point with the columns that the bits of `g` select. -/
def select (g : Nat) : Point := fun j => combine (net.scrambledGeneratingMatrices j) net.mMax g

/-- The columns that the point with index `i` has in the direct construction. -/
def selection (i : Nat) : Nat :=
  match net.ordering with
  | .natural => i
  | .grayCode => i ^^^ (i >>> 1)

variable {net}

/-! ## The iteration -/

/-- The iteration with the columns of the Gray code. -/
theorem next_select {k : Nat} (hk32 : k + 1 < 2 ^ 32) (hk : k + 1 < 2 ^ net.mMax) :
    net.next (k + 1) (net.select (gray k)) = net.select (gray (k + 1)) := by
  obtain ⟨t, ht, hlow⟩ := exists_lowest k.succ_ne_zero
  have hlt {q : Nat} (hq : k + 1 < 2 ^ q) : t < q :=
    (Nat.pow_lt_pow_iff_right (by decide)).mp ((Nat.ge_two_pow_of_testBit ht).trans_lt hq)
  have ht32 := hlt hk32
  have hbit {i : Nat} (hi : i < 32) : (BitVec.ofNat 32 (k + 1)).getLsbD i = (k + 1).testBit i := by
    rw [BitVec.getLsbD_ofNat, decide_eq_true hi, Bool.true_and]
  have hne : BitVec.ofNat 32 (k + 1) ≠ 0 := by
    intro h0
    have := congrArg BitVec.toNat h0
    rw [BitVec.toNat_ofNat, Nat.mod_eq_of_lt hk32] at this
    exact absurd this k.succ_ne_zero
  have hctz : countConsecutiveTrailingZeroBits (.ofNat 32 (k + 1)) = t :=
    countConsecutiveTrailingZeroBits_eq ((hbit (by omega)).trans ht) fun j hj =>
      (hbit (by omega)).trans (hlow j hj)
  funext j
  simp only [next, if_neg hne, hctz, select]
  rw [gray_xor_gray_pred ht hlow, Nat.succ_sub_one, combine_xor, combine_two_pow (hlt hk)]

/-- The point that the iteration has computed after index `k`. -/
theorem pointBefore_succ {k : Nat} (hk32 : k < 2 ^ 32) (hk : k < 2 ^ net.mMax) :
    net.next k (net.pointBefore k) = net.select (gray k) := by
  induction k with
  | zero =>
    funext j
    simp [next, pointBefore, select]
  | succ k ih =>
    rw [pointBefore, List.range_succ, List.foldl_append, List.foldl_cons, List.foldl_nil,
      ← pointBefore, ih (by omega) (by omega), next_select hk32 hk]

theorem pointsLoop_eq {nMin : Nat} (n k : Nat) (hk32 : k + n ≤ 2 ^ 32)
    (hk : k + n ≤ 2 ^ net.mMax) :
    net.pointsLoop nMin n k (net.pointBefore k) = (List.range' k n).map fun i =>
      (column nMin (net.reorder i), fun j => net.select (gray i) j ^^^ net.digitalShift j) := by
  induction n generalizing k with
  | zero => rfl
  | succ n ih =>
    have hbefore : net.pointBefore (k + 1) = net.next k (net.pointBefore k) := by
      rw [pointBefore, List.range_succ, List.foldl_append]
      rfl
    rw [pointsLoop, ← hbefore, ih (k + 1) (by omega) (by omega), List.range'_succ, List.map_cons,
      hbefore, pointBefore_succ (by omega) (by omega)]

/-- What the checks let pass, and the writes. -/
theorem getPoints_ok (hm : net.mMax ≤ 32) {nMin nMax dimension numCols : Nat}
    {writes : List (Int × Point)} (hle : nMin ≤ nMax)
    (hok : net.getPoints nMin nMax dimension numCols = .ok writes) :
    numCols = nMax - nMin ∧ nMax ≤ 2 ^ net.mMax ∧
      (net.ordering = .natural → ispow2 (.ofNat 32 numCols) = true) ∧
      writes = (List.range' nMin (nMax - nMin)).map fun i =>
        (column nMin (net.reorder i), fun j => net.select (gray i) j ^^^ net.digitalShift j) := by
  simp only [getPoints, checkSizes, bind, Except.bind] at hok
  split at hok
  · cases hok
  · rename_i hsizes
    split_ifs at hsizes with h₁ h₂ h₃
    simp only [unsafeGetPoints] at hok
    split_ifs at hok with h₄
    cases hok
    simp only [Bool.and_eq_true, decide_eq_true_eq, Bool.not_eq_true', not_and,
      Bool.not_eq_false] at h₄
    have h32 : 2 ^ net.mMax ≤ 2 ^ 32 := Nat.pow_le_pow_right (by decide) hm
    exact ⟨not_not.mp h₃, not_lt.mp h₁, h₄, pointsLoop_eq _ _ (by omega) (by omega)⟩

/-- The writes of a range that passes the checks. -/
theorem getPoints_eq {nMin nMax dimension : Nat} (hle : nMin ≤ nMax) (h32 : nMax ≤ 2 ^ 32)
    (hmax : nMax ≤ 2 ^ net.mMax) (hd : dimension ≤ net.dMax)
    (hpow : net.ordering = .natural → ispow2 (.ofNat 32 (nMax - nMin)) = true) :
    net.getPoints nMin nMax dimension (nMax - nMin) =
      .ok ((List.range' nMin (nMax - nMin)).map fun i =>
        (column nMin (net.reorder i), fun j => net.select (gray i) j ^^^ net.digitalShift j)) := by
  have hpow' : ¬ ((decide (net.ordering = .natural) && !ispow2 (.ofNat 32 (nMax - nMin))) = true) := by
    simpa using hpow
  simp only [getPoints, checkSizes, if_neg (not_lt.mpr hmax), if_neg (not_lt.mpr hd), ne_eq,
    not_true_eq_false, if_false, bind, Except.bind, unsafeGetPoints, if_neg hpow']
  rw [pointsLoop_eq _ _ (by omega) (by omega)]

/-! ## The direct construction -/

/-- The writes are those of the direct construction: each column of the matrix once, with the
combination that its index selects, and the same points as in a longer sequence from 0 on. -/
structure Direct (net : DigitalNet) (nMin nMax : Nat) (writes : List (Int × Point)) : Prop where
  columns : (writes.map Prod.fst).Perm ((List.range (nMax - nMin)).map Nat.cast)
  value : ∀ {c : Nat} {p : Point}, ((c : Int), p) ∈ writes →
    ∀ j, p j = combine (net.scrambledGeneratingMatrices j) net.mMax (net.selection (nMin + c)) ^^^
      net.digitalShift j
  longer : ∀ {N dimension : Nat} {writes' : List (Int × Point)}, nMax ≤ N → N < 2 ^ 31 →
    net.getPoints 0 N dimension N = .ok writes' →
    ∀ {c : Nat} {p : Point}, ((c : Int), p) ∈ writes → (((nMin + c : Nat) : Int), p) ∈ writes'

theorem ispow2_iff {n : Nat} (hn : n < 2 ^ 32) : ispow2 (.ofNat 32 n) ↔ ∃ p, n = 2 ^ p := by
  have hand : (BitVec.ofNat 32 n &&& (BitVec.ofNat 32 n - 1)).toNat = n &&& (n - 1) ∨ n = 0 := by
    rcases Nat.eq_zero_or_pos n with h0 | hpos
    · exact .inr h0
    · refine .inl ?_
      rw [BitVec.toNat_and, BitVec.toNat_sub_of_le, BitVec.toNat_ofNat, Nat.mod_eq_of_lt hn]
      · rfl
      · rw [BitVec.le_def, BitVec.toNat_ofNat, Nat.mod_eq_of_lt hn]
        exact hpos
  have hzero : BitVec.ofNat 32 n = 0 ↔ n = 0 := by
    rw [← BitVec.toNat_inj, BitVec.toNat_ofNat, Nat.mod_eq_of_lt hn]
    rfl
  rw [ispow2, decide_eq_true_eq, ne_eq, hzero, ← BitVec.toNat_inj]
  have hpow := Nat.ne_zero_and_sub_one_eq_zero_iff_isPowerOfTwo (n := n)
  rcases hand with hand | h0
  · rw [hand]
    exact hpow
  · subst h0
    refine iff_of_false (by simp) ?_
    rintro ⟨p, hp⟩
    exact (Nat.two_pow_pos p).ne hp

theorem reorder_eq (i : Nat) : net.reorder i = match net.ordering with
    | .natural => gray i
    | .grayCode => i := rfl

/-- The column of an index that is not far from the start. -/
theorem column_eq {nMin idx : Nat} {c : Nat} (hc : c < 2 ^ 31) (hidx : idx < 2 ^ 32)
    (hmin : nMin + c < 2 ^ 32) : column nMin idx = c ↔ idx = nMin + c := by
  rw [column]
  have hmod : ((c : Int)).bmod (2 ^ 32) = c := Int.bmod_eq_of_le (by omega) (by omega)
  rw [← hmod, Int.bmod_eq_bmod_iff_bmod_sub_eq_zero, ← Int.dvd_iff_bmod_eq_zero]
  omega

/-- In both orderings the Gray code of an index is the selection of its column. -/
theorem gray_eq_selection (i : Nat) : gray i = net.selection (net.reorder i) := by
  rw [selection, reorder]
  cases net.ordering <;> rfl

theorem reorder_injective : Function.Injective net.reorder := by
  intro i j h
  rw [reorder, reorder] at h
  cases hord : net.ordering with
  | natural =>
    simp only [hord] at h
    exact gray_injective h
  | grayCode => simpa only [hord] using h

theorem reorder_lt {i q : Nat} (hi : i < 2 ^ q) : net.reorder i < 2 ^ q := by
  rw [reorder]
  cases net.ordering with
  | natural => exact gray_lt hi
  | grayCode => exact hi

/-- The ranges that the ordering permutes. -/
theorem reorder_mem {nMin nMax : Nat} (hle : nMin ≤ nMax) (hn : nMax - nMin < 2 ^ 32)
    (hpow : net.ordering = .natural → ispow2 (.ofNat 32 (nMax - nMin)) = true)
    (hstart : net.ordering = .grayCode ∨ nMin = 0 ∨ nMin = nMax - nMin) {i : Nat}
    (h₁ : nMin ≤ i) (h₂ : i < nMax) : nMin ≤ net.reorder i ∧ net.reorder i < nMax := by
  rw [reorder]
  cases hord : net.ordering with
  | grayCode => exact ⟨h₁, h₂⟩
  | natural =>
    obtain ⟨p, hp⟩ := (ispow2_iff hn).mp (hpow hord)
    have hmax : nMax = nMin + 2 ^ p := by omega
    rw [hmax] at h₂ ⊢
    refine invariant_of_start ?_ h₁ h₂
    rw [← hp]
    exact hstart.resolve_left (by simp [hord])

section Writes

variable {nMin nMax : Nat} (h32 : nMax ≤ 2 ^ 32) (h31 : nMax - nMin < 2 ^ 31)
  (hmem : ∀ i, nMin ≤ i → i < nMax → nMin ≤ net.reorder i ∧ net.reorder i < nMax)
include h32 h31 hmem

theorem column_reorder {i : Nat} (h₁ : nMin ≤ i) (h₂ : i < nMax) :
    column nMin (net.reorder i) = ((net.reorder i - nMin : Nat) : Int) := by
  obtain ⟨h₃, h₄⟩ := hmem i h₁ h₂
  exact (column_eq (by omega) (by omega) (by omega)).mpr (by omega)

/-- The write to a column is that of its index. -/
theorem mem_writes {f : Nat → Point} {c : Nat} {p : Point} : ((c : Int), p) ∈
    (List.range' nMin (nMax - nMin)).map (fun i => (column nMin (net.reorder i), f i)) ↔
      ∃ i, nMin ≤ i ∧ i < nMax ∧ net.reorder i = nMin + c ∧ f i = p := by
  simp only [List.mem_map, List.mem_range'_1, Prod.mk.injEq]
  refine exists_congr fun i => ⟨?_, ?_⟩
  · rintro ⟨⟨h₁, h₂⟩, hc, hp⟩
    have h₃ := hmem i h₁ (by omega)
    rw [column_reorder h32 h31 hmem h₁ (by omega), Nat.cast_inj] at hc
    exact ⟨h₁, by omega, by omega, hp⟩
  · rintro ⟨h₁, h₂, hr, hp⟩
    refine ⟨⟨h₁, by omega⟩, ?_, hp⟩
    rw [column_reorder h32 h31 hmem h₁ h₂, hr, Nat.add_sub_cancel_left]

theorem columns_perm {f : Nat → Point} : (((List.range' nMin (nMax - nMin)).map
    fun i => (column nMin (net.reorder i), f i)).map Prod.fst).Perm
      ((List.range (nMax - nMin)).map Nat.cast) := by
  rw [List.map_map]
  have hinj : ∀ i ∈ List.range' nMin (nMax - nMin), ∀ j ∈ List.range' nMin (nMax - nMin),
      column nMin (net.reorder i) = column nMin (net.reorder j) → i = j := by
    intro i hi j hj h
    rw [List.mem_range'_1] at hi hj
    have h₁ := hmem i hi.1 (by omega)
    have h₂ := hmem j hj.1 (by omega)
    rw [column_reorder h32 h31 hmem hi.1 (by omega), column_reorder h32 h31 hmem hj.1 (by omega),
      Nat.cast_inj] at h
    have hreorder : net.reorder i = net.reorder j := by omega
    exact reorder_injective hreorder
  refine List.Subperm.perm_of_length_le
    (List.subperm_of_subset (List.Nodup.map_on hinj List.nodup_range') fun c hc => ?_) (by simp)
  obtain ⟨i, hi, rfl⟩ := List.mem_map.mp hc
  rw [List.mem_range'_1] at hi
  have h₁ := hmem i hi.1 (by omega)
  rw [List.mem_map]
  exact ⟨net.reorder i - nMin, List.mem_range.mpr (by omega),
    (column_reorder h32 h31 hmem hi.1 (by omega)).symm⟩

end Writes

/-- **The direct construction.** For a range that passes the checks, the writes are those of the
direct construction if and only if the order is that of the Gray code, or the range starts at 0 or
at its own length. -/
theorem getPoints_direct_iff (hm : net.mMax ≤ 32) {nMin nMax dimension numCols : Nat}
    {writes : List (Int × Point)} (hle : nMin ≤ nMax) (hcols : numCols < 2 ^ 31)
    (hok : net.getPoints nMin nMax dimension numCols = .ok writes) :
    Direct net nMin nMax writes ↔
      net.ordering = .grayCode ∨ nMin = 0 ∨ nMin = nMax - nMin := by
  obtain ⟨rfl, hmax, hpow, rfl⟩ := getPoints_ok hm hle hok
  have h32 : nMax ≤ 2 ^ 32 := hmax.trans (Nat.pow_le_pow_right (by decide) hm)
  constructor
  · intro h
    cases hord : net.ordering with
    | grayCode => exact .inl rfl
    | natural =>
      refine .inr ?_
      obtain ⟨p, hp⟩ := (ispow2_iff (by omega)).mp (hpow hord)
      rw [hp]
      refine start_of_invariant fun k h₁ h₂ => ?_
      rw [← hp] at h₂ ⊢
      have hk := h.columns.subset (a := column nMin (net.reorder k)) (by
        rw [List.map_map]
        exact List.mem_map_of_mem (List.mem_range'_1.mpr ⟨h₁, h₂⟩))
      obtain ⟨c, hc, hcol⟩ := List.mem_map.mp hk
      rw [List.mem_range] at hc
      have hidx := (column_eq (by omega) (reorder_lt (q := 32) (by omega)) (by omega)).mp hcol.symm
      rw [reorder_eq, hord] at hidx
      simp only at hidx
      omega
  · intro hstart
    have hmem : ∀ i, nMin ≤ i → i < nMax → nMin ≤ net.reorder i ∧ net.reorder i < nMax :=
      fun i => reorder_mem hle (by omega) hpow hstart
    refine ⟨columns_perm h32 hcols hmem, fun {c p} hp j => ?_, fun {N d writes'} hN h31 hok' c p hp => ?_⟩
    · obtain ⟨i, -, -, hr, rfl⟩ := (mem_writes h32 hcols hmem).mp hp
      rw [← hr, ← gray_eq_selection]
      rfl
    · obtain ⟨-, hmax', hpow', rfl⟩ := getPoints_ok hm (Nat.zero_le N) hok'
      obtain ⟨i, h₁, h₂, hr, rfl⟩ := (mem_writes h32 hcols hmem).mp hp
      have hmem' : ∀ i, 0 ≤ i → i < N → 0 ≤ net.reorder i ∧ net.reorder i < N :=
        fun i => reorder_mem (Nat.zero_le N) (by omega) hpow' (.inr (.inl rfl))
      exact (mem_writes (hmax'.trans (Nat.pow_le_pow_right (by decide) hm)) (by omega) hmem').mpr
        ⟨i, Nat.zero_le i, by omega, by omega, rfl⟩

/-- A net of one dimension and two columns. -/
def twoColumns (ordering : DigitalNetOrdering) : DigitalNet where
  mMax := 2
  dMax := 1
  ordering := ordering
  scrambledGeneratingMatrices _ n := .twoPow 64 (63 - n)
  digitalShift _ := 0

/-- The second half of a sequence in natural order. -/
theorem getPoints_direct_second_half :
    ∃ writes, (twoColumns .natural).getPoints 2 4 1 2 = .ok writes ∧
      Direct (twoColumns .natural) 2 4 writes :=
  ⟨_, rfl, (getPoints_direct_iff (by decide) (by decide) (by decide)
    (rfl : (twoColumns .natural).getPoints 2 4 1 2 = _)).mpr (.inr (.inr rfl))⟩

/-- Two points from index 1 on, in natural order: the second write is to column 2 of 2. -/
theorem getPoints_outside : ∃ writes, (twoColumns .natural).getPoints 1 3 1 2 = .ok writes ∧
    writes.map Prod.fst = [0, 2] ∧ ¬ Direct (twoColumns .natural) 1 3 writes := by
  refine ⟨_, rfl, by decide, fun h => ?_⟩
  have hlen := h.columns.subset (a := 2) (by decide)
  revert hlen
  decide

end DigitalNet

end Dakota.LowDiscrepancy
