import Dakota.Lib.Numerals
import Mathlib

/-!
# Bit operations

`src/src/dakota_bit_utils.hpp`, on unsigned integers of the source's widths, and what the bits of
their results are.
-/

namespace Dakota.LowDiscrepancy

/-- `count_consecutive_trailing_zero_bits` -/
def countConsecutiveTrailingZeroBits (v : BitVec 32) : Nat :=
  let v := v &&& -v
  let c := 32
  let c := if v ≠ 0 then c - 1 else c
  let c := if v &&& 0x0000FFFF#32 ≠ 0 then c - 16 else c
  let c := if v &&& 0x00FF00FF#32 ≠ 0 then c - 8 else c
  let c := if v &&& 0x0F0F0F0F#32 ≠ 0 then c - 4 else c
  let c := if v &&& 0x33333333#32 ≠ 0 then c - 2 else c
  if v &&& 0x55555555#32 ≠ 0 then c - 1 else c

/-- A step of `bitreverse`: neighbouring groups of `s` bits change places. -/
def swapGroups (mask : BitVec 32) (s : Nat) (v : BitVec 32) : BitVec 32 :=
  ((v >>> s) &&& mask) ||| ((v &&& mask) <<< s)

/-- `bitreverse(UInt32)` -/
def bitreverse32 (k : BitVec 32) : BitVec 32 :=
  let v := swapGroups 0x55555555#32 1 k
  let v := swapGroups 0x33333333#32 2 v
  let v := swapGroups 0x0F0F0F0F#32 4 v
  let v := swapGroups 0x00FF00FF#32 8 v
  (v >>> 16) ||| (v <<< 16)

/-- `bitreverse(UInt64)` -/
def bitreverse64 (v : BitVec 64) : BitVec 64 :=
  ((bitreverse32 (v.setWidth 32)).setWidth 64 <<< 32) |||
    (bitreverse32 ((v >>> 32).setWidth 32)).setWidth 64

/-- `bitreverse(v, s)`: the loop over `s` bits, with `r` for the bits so far. -/
def bitreverseLoop : Nat → BitVec 64 → BitVec 64 → BitVec 64
  | 0, r, _ => r
  | s + 1, r, v => bitreverseLoop s (r <<< 1 ||| (v &&& 1)) (v >>> 1)

def bitreverse (v : BitVec 64) (s : Nat) : BitVec 64 := bitreverseLoop s 0 v

/-- `binary2gray` -/
def binary2gray (v : Nat) : Nat := v ^^^ (v >>> 1)

/-- `ispow2` -/
def ispow2 (v : BitVec 32) : Bool := v ≠ 0 ∧ v &&& (v - 1) = 0

/-- `bitget` -/
def bitget (v : BitVec 64) (j : Nat) : BitVec 64 := (v >>> j) &&& 1

/-- `matmul_base2`, for an `A` of length `t`: an entry of the result. -/
def matmulBase2 (t : Nat) (A B : Nat → BitVec 64) (k : Nat) : BitVec 64 :=
  (List.range t).foldl (fun result i => result ^^^ bitget (B k) i * A i) 0

/-! ## Trailing zeros -/

/-- The lowest set bit of `v` alone. -/
theorem and_neg_eq_twoPow {v : BitVec 32} {t : Nat} (ht : v.getLsbD t)
    (hlow : ∀ j < t, v.getLsbD j = false) : v &&& -v = BitVec.twoPow 32 t := by
  have htw : t < 32 := BitVec.lt_of_getLsbD ht
  ext i hi
  rw [BitVec.getElem_and, BitVec.getElem_twoPow, ← BitVec.getLsbD_eq_getElem,
    ← BitVec.getLsbD_eq_getElem, BitVec.getLsbD_neg]
  rcases Nat.lt_trichotomy i t with h | rfl | h
  · rw [hlow i h]
    simp
    omega
  · have hno : ¬ ∃ j < i, v.getLsbD j := by
      rintro ⟨j, hj, hv⟩
      rw [hlow j hj] at hv
      cases hv
    simp [ht, hi, hno]
  · have hex : ∃ j < i, v.getLsbD j := ⟨t, h, ht⟩
    simp only [hex, decide_true]
    cases v.getLsbD i <;> simp [hi] <;> omega

theorem countConsecutiveTrailingZeroBits_twoPow :
    ∀ t < 32, (let v := BitVec.twoPow 32 t
      let c := if v ≠ 0 then 31 else 32
      let c := if v &&& 0x0000FFFF#32 ≠ 0 then c - 16 else c
      let c := if v &&& 0x00FF00FF#32 ≠ 0 then c - 8 else c
      let c := if v &&& 0x0F0F0F0F#32 ≠ 0 then c - 4 else c
      let c := if v &&& 0x33333333#32 ≠ 0 then c - 2 else c
      if v &&& 0x55555555#32 ≠ 0 then c - 1 else c) = t := by decide

/-- The count is the position of the lowest set bit. -/
theorem countConsecutiveTrailingZeroBits_eq {v : BitVec 32} {t : Nat} (ht : v.getLsbD t)
    (hlow : ∀ j < t, v.getLsbD j = false) : countConsecutiveTrailingZeroBits v = t := by
  rw [countConsecutiveTrailingZeroBits, and_neg_eq_twoPow ht hlow]
  exact countConsecutiveTrailingZeroBits_twoPow t (BitVec.lt_of_getLsbD ht)

/-! ## Reversal -/

/-- A mask has the lower group of each pair. -/
theorem getLsbD_swapGroups {mask v : BitVec 32} {s : Nat}
    (hmask : ∀ i < 32, mask.getLsbD i = decide (i &&& s = 0)) (hs : s ∈ [1, 2, 4, 8, 16]) :
    ∀ i < 32, (swapGroups mask s v).getLsbD i = v.getLsbD (i ^^^ s) := by
  intro i hi
  have hflip : i ^^^ s = if i &&& s = 0 then i + s else i - s := by
    revert i
    simp only [List.mem_cons, List.not_mem_nil, or_false] at hs
    rcases hs with rfl | rfl | rfl | rfl | rfl <;> decide
  have hpart : (i &&& s = 0 → i + s < 32 ∧ ¬ (s ≤ i ∧ (i - s) &&& s = 0)) ∧
      (i &&& s ≠ 0 → s ≤ i ∧ (i - s) &&& s = 0) := by
    revert i
    simp only [List.mem_cons, List.not_mem_nil, or_false] at hs
    rcases hs with rfl | rfl | rfl | rfl | rfl <;> decide
  simp only [swapGroups, BitVec.getLsbD_or, BitVec.getLsbD_and, BitVec.getLsbD_ushiftRight,
    BitVec.getLsbD_shiftLeft, hflip]
  rw [hmask i hi, hmask (i - s) (by omega), Nat.add_comm s i]
  by_cases h : i &&& s = 0
  · have := hpart.1 h
    simp only [h, decide_true, Bool.and_true, if_true]
    by_cases hsi : s ≤ i
    · have hne : (i - s) &&& s ≠ 0 := fun he => this.2 ⟨hsi, he⟩
      simp [hne]
    · simp [show i < s by omega]
  · obtain ⟨hsi, he⟩ := hpart.2 h
    simp [h, he, hi, show ¬ i < s by omega]

theorem getLsbD_bitreverse32 (k : BitVec 32) :
    ∀ i < 32, (bitreverse32 k).getLsbD i = k.getLsbD (31 - i) := by
  intro i hi
  have hlast (v : BitVec 32) : (v >>> 16 ||| v <<< 16).getLsbD i = v.getLsbD (i ^^^ 16) := by
    have hflip : i ^^^ 16 = if i < 16 then i + 16 else i - 16 := by
      revert i
      decide
    rw [hflip, BitVec.getLsbD_or, BitVec.getLsbD_ushiftRight, BitVec.getLsbD_shiftLeft,
      Nat.add_comm]
    by_cases h : i < 16
    · simp [h]
    · rw [BitVec.getLsbD_of_ge v (i + 16) (by omega)]
      simp [h, hi]
  have hlt : ∀ i < 32, i ^^^ 16 < 32 ∧ i ^^^ 16 ^^^ 8 < 32 ∧ i ^^^ 16 ^^^ 8 ^^^ 4 < 32 ∧
      i ^^^ 16 ^^^ 8 ^^^ 4 ^^^ 2 < 32 ∧ i ^^^ 16 ^^^ 8 ^^^ 4 ^^^ 2 ^^^ 1 = 31 - i := by decide
  obtain ⟨h₁₆, h₈, h₄, h₂, h₁⟩ := hlt i hi
  rw [bitreverse32, hlast, getLsbD_swapGroups (by decide) (by decide) _ h₁₆,
    getLsbD_swapGroups (by decide) (by decide) _ h₈, getLsbD_swapGroups (by decide) (by decide) _ h₄,
    getLsbD_swapGroups (by decide) (by decide) _ h₂, h₁]

theorem getLsbD_bitreverse64 (v : BitVec 64) :
    ∀ i < 64, (bitreverse64 v).getLsbD i = v.getLsbD (63 - i) := by
  intro i hi
  simp only [bitreverse64, BitVec.getLsbD_or, BitVec.getLsbD_shiftLeft, BitVec.getLsbD_setWidth]
  by_cases h : i < 32
  · rw [getLsbD_bitreverse32 _ i h]
    simp only [BitVec.getLsbD_setWidth, BitVec.getLsbD_ushiftRight]
    simp [h, hi, show 31 - i < 32 by omega, show 32 + (31 - i) = 63 - i by omega]
  · rw [getLsbD_bitreverse32 _ (i - 32) (by omega), BitVec.getLsbD_of_ge _ i (by omega)]
    simp only [BitVec.getLsbD_setWidth]
    simp [h, hi, show 31 - (i - 32) = 63 - i by omega, show 63 - i < 32 by omega,
      show i - 32 < 64 by omega]

/-- The lower `s` bits of `v`, in reverse, below those of `r`. -/
theorem getLsbD_bitreverseLoop (s i : Nat) (r v : BitVec 64) (hi : i < 64) :
    (bitreverseLoop s r v).getLsbD i =
      if i < s then v.getLsbD (s - 1 - i) else r.getLsbD (i - s) := by
  induction s generalizing r v with
  | zero => simp [bitreverseLoop]
  | succ s ih =>
    rw [bitreverseLoop, ih]
    rcases Nat.lt_trichotomy i s with h | rfl | h
    · rw [if_pos h, if_pos (by omega), BitVec.getLsbD_ushiftRight]
      congr 1
      omega
    · rw [if_neg (by omega), if_pos (by omega)]
      simp
    · rw [if_neg (by omega), if_neg (by omega)]
      obtain ⟨k, hk⟩ : ∃ k, i - s = k + 1 := ⟨i - s - 1, by omega⟩
      rw [hk, show i - (s + 1) = k by omega]
      simp [BitVec.getLsbD_eq_getElem, show k < 64 by omega, show k + 1 < 64 by omega]

theorem getLsbD_bitreverse (v : BitVec 64) (s i : Nat) (hi : i < 64) :
    (bitreverse v s).getLsbD i = (decide (i < s) && v.getLsbD (s - 1 - i)) := by
  rw [bitreverse, getLsbD_bitreverseLoop s i _ _ hi]
  by_cases h : i < s <;> simp [h]

end Dakota.LowDiscrepancy
