import Dakota.LowDiscrepancy.DigitalNet

/-!
# Rank-1 lattices

`Rank1Lattice::unsafe_get_points` (`src/src/Rank1Lattice.cpp`), in exact arithmetic.

* `radicalInverse`: 32-bit reversal of a number below `2 ^ m`, divided by `2 ^ 32`, is `m`-bit
  reversal divided by `2 ^ m`.
* `getPoints_lattice`: the first points of each power of two are those of the lattice of that size,
  and a range of points is a range of each longer sequence.
-/

namespace Dakota.LowDiscrepancy

inductive Rank1LatticeOrdering where
  | natural
  | radicalInverse
deriving DecidableEq

structure Rank1Lattice where
  mMax : Nat
  dMax : Nat
  ordering : Rank1LatticeOrdering
  generatingVector : Nat → BitVec 32
  randomShift : Nat → ℚ

namespace Rank1Lattice

variable (lat : Rank1Lattice)

/-- `scale`. The shift `1 << mMax` is that of an `int`. -/
def scale : ℚ :=
  match lat.ordering with
  | .natural => 1 / (((2 ^ lat.mMax : Int).bmod (2 ^ 32) : Int) : ℚ)
  | .radicalInverse => 1 / 4294967296

/-- `reorder_natural` and `reorder_radical_inverse` -/
def reorder (k : BitVec 32) : BitVec 32 :=
  match lat.ordering with
  | .natural => k
  | .radicalInverse => bitreverse32 k

/-- A coordinate of the point with index `k`. -/
def point (k : BitVec 32) (j : Nat) : ℚ :=
  let phik := (lat.reorder k).toNat * lat.scale
  let point := phik * (lat.generatingVector j).toNat + lat.randomShift j
  point - ⌊point⌋

/-- `unsafe_get_points`: the columns, in the order that they are written. -/
def unsafeGetPoints (nMin nMax : Nat) : List (Nat × (Nat → ℚ)) :=
  (List.range' nMin (nMax - nMin)).map fun k => (k - nMin, lat.point (.ofNat 32 k))

/-- `get_points(nMin, nMax, points)` -/
def getPoints (nMin nMax dimension numCols : Nat) :
    Except SequenceError (List (Nat × (Nat → ℚ))) := do
  checkSizes lat.mMax lat.dMax nMin nMax dimension numCols
  return lat.unsafeGetPoints nMin nMax

/-- The lattice without its shift. -/
def unshifted : Rank1Lattice := { lat with randomShift := fun _ => 0 }

/-- The point with index `i` of the lattice with `2 ^ m` points. -/
def latticePoint (m i j : Nat) : ℚ :=
  Int.fract ((i * (lat.generatingVector j).toNat : ℚ) / 2 ^ m + lat.randomShift j)

variable {lat}

/-! ## Radical inverse -/

/-- The reversal of a number below `2 ^ m` is a multiple of the number of the other bits. -/
theorem toNat_bitreverse32 {m k : Nat} (hm : m ≤ 32) (hk : k < 2 ^ m) :
    (bitreverse32 (.ofNat 32 k)).toNat =
      2 ^ (32 - m) * ((bitreverse32 (.ofNat 32 k)).toNat / 2 ^ (32 - m)) := by
  refine (Nat.mul_div_cancel' (Nat.dvd_of_mod_eq_zero (Nat.eq_of_testBit_eq fun i => ?_))).symm
  rw [Nat.testBit_mod_two_pow, Nat.zero_testBit, BitVec.testBit_toNat]
  by_cases hi : i < 32 - m
  · rw [getLsbD_bitreverse32 _ i (by omega), BitVec.getLsbD_ofNat,
      Nat.testBit_lt_two_pow (hk.trans_le (Nat.pow_le_pow_right (by decide) (by omega)))]
    simp
  · simp [hi]

theorem bitreverse32_injective : Function.Injective bitreverse32 := by
  intro x y h
  refine BitVec.eq_of_getLsbD_eq fun i hi => ?_
  have := congrArg (BitVec.getLsbD · (31 - i)) h
  simp only [getLsbD_bitreverse32 _ (31 - i) (by omega), show 31 - (31 - i) = i by omega] at this
  exact this

/-- Reversal of `m` bits, as a permutation. -/
theorem exists_perm_reverse {m : Nat} (hm : m ≤ 32) : ∃ σ : Equiv.Perm (Fin (2 ^ m)),
    ∀ k : Fin (2 ^ m), (bitreverse32 (.ofNat 32 k)).toNat = 2 ^ (32 - m) * (σ k : Nat) := by
  have hpow : 2 ^ (32 - m) * 2 ^ m = 2 ^ 32 := by rw [← pow_add, Nat.sub_add_cancel hm]
  let f (k : Fin (2 ^ m)) : Fin (2 ^ m) :=
    ⟨(bitreverse32 (.ofNat 32 k)).toNat / 2 ^ (32 - m), by
      rw [Nat.div_lt_iff_lt_mul (by positivity), Nat.mul_comm, hpow]
      exact BitVec.isLt _⟩
  have hf (k : Fin (2 ^ m)) : (bitreverse32 (.ofNat 32 k)).toNat = 2 ^ (32 - m) * (f k : Nat) :=
    toNat_bitreverse32 hm k.2
  have hinj : Function.Injective f := by
    intro k l h
    have hkl : (k : Nat) % 2 ^ 32 = (l : Nat) % 2 ^ 32 := by
      have := bitreverse32_injective (BitVec.eq_of_toNat_eq ((hf k).trans (h ▸ (hf l).symm)))
      simpa using congrArg BitVec.toNat this
    have hle : 2 ^ m ≤ 2 ^ 32 := Nat.pow_le_pow_right (by decide) hm
    rw [Nat.mod_eq_of_lt (k.2.trans_le hle), Nat.mod_eq_of_lt (l.2.trans_le hle)] at hkl
    exact Fin.ext hkl
  exact ⟨.ofBijective f (Finite.injective_iff_bijective.mp hinj), hf⟩

/-- The points of a radical inverse order, for each power of two. -/
theorem point_radicalInverse (hord : lat.ordering = .radicalInverse) {m : Nat} (hm : m ≤ 32) :
    ∃ σ : Equiv.Perm (Fin (2 ^ m)), ∀ (k : Fin (2 ^ m)) (j : Nat),
      lat.point (.ofNat 32 k) j = lat.latticePoint m (σ k) j := by
  obtain ⟨σ, hσ⟩ := exists_perm_reverse hm
  refine ⟨σ, fun k j => ?_⟩
  have hpow : (2 : ℚ) ^ (32 - m) / 4294967296 = 1 / 2 ^ m := by
    rw [div_eq_div_iff (by norm_num) (by positivity), one_mul, ← pow_add, Nat.sub_add_cancel hm]
    norm_num
  have hphi : ((lat.reorder (.ofNat 32 k)).toNat : ℚ) * lat.scale = (σ k : Nat) / 2 ^ m := by
    rw [reorder, scale, hord, hσ]
    push_cast
    rw [mul_one_div, mul_comm, mul_div_assoc, hpow, mul_one_div]
  simp only [point, latticePoint, hphi]
  rw [Int.self_sub_floor]
  congr 2
  ring

/-- The points of a natural order, for the full lattice. With 31 bits the shift is negative, and
the points are in reverse. -/
theorem point_natural (hord : lat.ordering = .natural) (hm : lat.mMax ≤ 31) :
    ∃ σ : Equiv.Perm (Fin (2 ^ lat.mMax)), ∀ (k : Fin (2 ^ lat.mMax)) (j : Nat),
      lat.point (.ofNat 32 k) j = lat.latticePoint lat.mMax (σ k) j := by
  have hle : 2 ^ lat.mMax ≤ 2 ^ 31 := Nat.pow_le_pow_right (by decide) hm
  have hval (k : Fin (2 ^ lat.mMax)) : (BitVec.ofNat 32 k).toNat = k := by
    rw [BitVec.toNat_ofNat, Nat.mod_eq_of_lt (by omega)]
  rcases Nat.lt_or_ge lat.mMax 31 with h31 | h31
  · have hscale : lat.scale = 1 / 2 ^ lat.mMax := by
      have hle' : 2 ^ lat.mMax ≤ 2 ^ 30 := Nat.pow_le_pow_right (by decide) (by omega)
      have hlt : (2 : Int) ^ lat.mMax ≤ 2 ^ 30 := by exact_mod_cast hle'
      have hpos : (0 : Int) < 2 ^ lat.mMax := by positivity
      have hb : (2 ^ lat.mMax : Int).bmod (2 ^ 32) = 2 ^ lat.mMax :=
        Int.bmod_eq_of_le (by omega) (by omega)
      rw [scale, hord]
      simp only [hb]
      push_cast
      rfl
    refine ⟨.refl _, fun k j => ?_⟩
    simp only [point, latticePoint, reorder, hord, hscale, hval]
    rw [Int.self_sub_floor]
    congr 2
    simp only [Equiv.refl_apply]
    ring
  · have h31 : lat.mMax = 31 := by omega
    have hscale : lat.scale = -(1 / 2 ^ lat.mMax) := by
      have hb : (2 ^ 31 : Int).bmod (2 ^ 32) = -2 ^ 31 := by decide
      rw [scale, hord, h31]
      simp only [hb]
      norm_num
    have : NeZero (2 ^ lat.mMax) := ⟨by positivity⟩
    refine ⟨.neg _, fun k j => ?_⟩
    simp only [point, latticePoint, reorder, hord, hscale, hval]
    rw [Int.self_sub_floor]
    simp only [Equiv.neg_apply, Fin.val_neg]
    split
    · rename_i h0
      simp [h0]
    · -- The points differ by an integer.
      rw [Nat.cast_sub k.2.le, ← Int.fract_add_natCast _ (lat.generatingVector j).toNat]
      congr 1
      push_cast
      field_simp
      ring

/-! ## Odd generators -/

/-- Multiplication by an odd number permutes the residues modulo a power of two. -/
theorem exists_perm_mul {z : Nat} (hz : z % 2 = 1) (m : Nat) : ∃ τ : Equiv.Perm (Fin (2 ^ m)),
    ∀ k : Fin (2 ^ m), (τ k : Nat) = (k * z) % 2 ^ m := by
  let f (k : Fin (2 ^ m)) : Fin (2 ^ m) := ⟨(k * z) % 2 ^ m, Nat.mod_lt _ (by positivity)⟩
  have hcop : Nat.Coprime (2 ^ m) z := Nat.Coprime.pow_left m (Nat.coprime_two_left.mpr
    (Nat.odd_iff.mpr hz))
  have hinj : Function.Injective f := by
    intro k l h
    have hmod : (k * z : Nat) ≡ l * z [MOD 2 ^ m] := congrArg Fin.val h
    have := hmod.cancel_right_of_coprime hcop
    rw [Nat.ModEq, Nat.mod_eq_of_lt k.2, Nat.mod_eq_of_lt l.2] at this
    exact Fin.ext this
  exact ⟨.ofBijective f (Finite.injective_iff_bijective.mp hinj), fun _ => rfl⟩

/-- A coordinate with an odd generator takes each multiple of `1 / 2 ^ m` once. -/
theorem latticePoint_unshifted {j : Nat} (hz : (lat.generatingVector j).toNat % 2 = 1) (m : Nat) :
    ∃ τ : Equiv.Perm (Fin (2 ^ m)), ∀ k : Fin (2 ^ m),
      lat.unshifted.latticePoint m k j = (τ k : Nat) / 2 ^ m := by
  obtain ⟨τ, hτ⟩ := exists_perm_mul hz m
  refine ⟨τ, fun k => ?_⟩
  have h := Int.fract_div_natCast_eq_div_natCast_mod (k := ℚ)
    (m := k * (lat.generatingVector j).toNat) (n := 2 ^ m)
  push_cast at h
  rw [latticePoint, unshifted, add_zero, h, hτ]

/-! ## Ranges -/

theorem getPoints_eq (nMin : Nat) {nMax dimension : Nat} (hmax : nMax ≤ 2 ^ lat.mMax)
    (hd : dimension ≤ lat.dMax) : lat.getPoints nMin nMax dimension (nMax - nMin) =
      .ok ((List.range' nMin (nMax - nMin)).map fun k => (k - nMin, lat.point (.ofNat 32 k))) := by
  simp only [getPoints, checkSizes, if_neg (not_lt.mpr hmax), if_neg (not_lt.mpr hd), ne_eq,
    not_true_eq_false, if_false]
  rfl

/-- The first `2 ^ m` points are those of the lattice of that size, each once. -/
def IsLattice (lat : Rank1Lattice) (m : Nat) : Prop :=
  ∃ σ : Equiv.Perm (Fin (2 ^ m)), ∀ dimension ≤ lat.dMax,
    lat.getPoints 0 (2 ^ m) dimension (2 ^ m) =
      .ok (List.ofFn fun k : Fin (2 ^ m) => ((k : Nat), lat.latticePoint m (σ k)))

theorem isLattice_of_point {m : Nat} (hm : m ≤ lat.mMax) (h : ∃ σ : Equiv.Perm (Fin (2 ^ m)),
    ∀ (k : Fin (2 ^ m)) (j : Nat), lat.point (.ofNat 32 k) j = lat.latticePoint m (σ k) j) :
    IsLattice lat m := by
  obtain ⟨σ, hσ⟩ := h
  refine ⟨σ, fun dimension hd => ?_⟩
  have heq := getPoints_eq 0 (Nat.pow_le_pow_right (by decide) hm) hd
  rw [Nat.sub_zero] at heq
  rw [heq]
  congr 1
  refine List.ext_getElem (by simp) fun k hk _ => ?_
  simp only [List.length_map, List.length_range'] at hk
  simp only [List.getElem_map, List.getElem_range', List.getElem_ofFn, Nat.zero_add, Nat.one_mul,
    Nat.sub_zero]
  exact Prod.ext rfl (funext fun j => hσ ⟨k, hk⟩ j)

/-- **Embedded and extensible lattices.** -/
theorem getPoints_lattice (hm : lat.mMax ≤ 31) :
    (lat.ordering = .radicalInverse → ∀ m ≤ lat.mMax, IsLattice lat m) ∧
    (lat.ordering = .natural → IsLattice lat lat.mMax) ∧
    (∀ {nMin nMax N dimension : Nat}, nMin ≤ nMax → nMax ≤ N → N ≤ 2 ^ lat.mMax →
      dimension ≤ lat.dMax → ∃ writes writes',
        lat.getPoints nMin nMax dimension (nMax - nMin) = .ok writes ∧
        lat.getPoints 0 N dimension N = .ok writes' ∧
        writes.map Prod.fst = List.range (nMax - nMin) ∧
        writes.map Prod.snd = ((writes'.map Prod.snd).drop nMin).take (nMax - nMin)) ∧
    (lat.ordering = .radicalInverse → ∀ j, (lat.generatingVector j).toNat % 2 = 1 →
      ∀ m ≤ lat.mMax, ∃ τ : Equiv.Perm (Fin (2 ^ m)), ∀ k : Fin (2 ^ m),
        lat.unshifted.point (.ofNat 32 k) j = (τ k : Nat) / 2 ^ m) := by
  refine ⟨fun hord m hle => isLattice_of_point hle (point_radicalInverse hord (by omega)),
    fun hord => isLattice_of_point le_rfl (point_natural hord hm),
    fun {nMin nMax N dimension} h₁ h₂ h₃ hd => ?_, fun hord j hz m hle => ?_⟩
  · have heq := getPoints_eq 0 h₃ hd
    rw [Nat.sub_zero] at heq
    refine ⟨_, _, getPoints_eq _ (h₂.trans h₃) hd, heq, ?_, ?_⟩
    · refine List.ext_getElem (by simp) fun k hk _ => ?_
      simp
    · refine List.ext_getElem (by simp; omega) fun k hk _ => ?_
      simp
  · have hord' : lat.unshifted.ordering = .radicalInverse := hord
    obtain ⟨σ, hσ⟩ := point_radicalInverse hord' (hle.trans (by omega))
    obtain ⟨τ, hτ⟩ := latticePoint_unshifted hz m
    exact ⟨σ.trans τ, fun k => (hσ k j).trans (hτ (σ k))⟩

/-- The lattice of four points with generating vector `(1, 3)`. -/
def fourPoints : Rank1Lattice where
  mMax := 2
  dMax := 2
  ordering := .radicalInverse
  generatingVector j := .ofNat 32 (2 * j + 1)
  randomShift _ := 0

theorem getPoints_lattice_four : IsLattice fourPoints 1 ∧ IsLattice fourPoints 2 := by
  have h : fourPoints.mMax ≤ 31 := by decide
  exact ⟨(getPoints_lattice h).1 rfl 1 (by decide), (getPoints_lattice h).1 rfl 2 le_rfl⟩

end Rank1Lattice

end Dakota.LowDiscrepancy
