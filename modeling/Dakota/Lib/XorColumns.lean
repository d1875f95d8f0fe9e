import Dakota.Lib.Numerals
import Mathlib

/-!
# Binary matrices as columns of bits

A binary matrix is a family of columns, each a `BitVec`: bit `i` of column `b` is its entry in row
`i`. `combine C n g` is its product with the bits of `g`: the xor of the columns that they select.

* `combine` is linear in `g` (`combine_xor`), and a single bit selects a single column.
* `bit`: a bit as a number modulo 2, where xor is the sum. `bit_combine`: an entry of the product
  is the sum over the columns.
* `toMatrix`: the first rows and columns, as a matrix. A product with a lower triangular matrix has
  the ranks of its right factor (`rank_combine`).
-/

namespace XorColumns

variable {w : Nat} {C : Nat → BitVec w} {n g h b i : Nat}

/-- The xor of the columns that the bits of `g` select, among the first `n`. -/
def combine (C : Nat → BitVec w) : Nat → Nat → BitVec w
  | 0, _ => 0
  | n + 1, g => if g.testBit n then combine C n g ^^^ C n else combine C n g

theorem combine_succ : combine C (n + 1) g
    = combine C n g ^^^ if g.testBit n then C n else 0 := by
  rw [combine]
  split
  · rfl
  · exact BitVec.xor_zero.symm

@[simp] theorem combine_zero : combine C n 0 = 0 := by
  induction n with
  | zero => rfl
  | succ n ih => simp [combine, ih]

theorem combine_xor : combine C n (g ^^^ h) = combine C n g ^^^ combine C n h := by
  induction n with
  | zero => simp [combine]
  | succ n ih =>
    have hbit : (if (g ^^^ h).testBit n then C n else 0)
        = (if g.testBit n then C n else 0) ^^^ if h.testBit n then C n else 0 := by
      rw [Nat.testBit_xor]
      cases g.testBit n <;> cases h.testBit n <;> simp
    rw [combine_succ, combine_succ, combine_succ, ih, hbit]
    ac_rfl

/-- Only the first columns matter for a small `g`. -/
theorem combine_of_lt {k : Nat} (hg : g < 2 ^ k) (hk : k ≤ n) : combine C n g = combine C k g := by
  induction n, hk using Nat.le_induction with
  | base => rfl
  | succ n hk ih =>
    have hbit : g.testBit n = false :=
      Nat.testBit_lt_two_pow (hg.trans_le (Nat.pow_le_pow_right (by decide) hk))
    simp [combine, hbit, ih]

theorem combine_two_pow (hb : b < n) : combine C n (2 ^ b) = C b := by
  rw [combine_of_lt (Nat.pow_lt_pow_right (by decide) b.lt_succ_self) hb, combine,
    Nat.testBit_two_pow_self, if_pos rfl]
  have hlow : ∀ k ≤ b, combine C k (2 ^ b) = 0 := by
    intro k
    induction k with
    | zero => exact fun _ => rfl
    | succ k ih =>
      intro hk
      rw [combine, Nat.testBit_two_pow_of_ne (by omega), ih (by omega)]
      rfl
  rw [hlow b le_rfl]
  exact BitVec.zero_xor

/-! ## Modulo 2 -/

/-- A bit as a number modulo 2. -/
def bit (x : Bool) : ZMod 2 := if x then 1 else 0

@[simp] theorem bit_true : bit true = 1 := rfl

@[simp] theorem bit_false : bit false = 0 := rfl

@[simp] theorem bit_xor (x y : Bool) : bit (x ^^ y) = bit x + bit y := by
  revert x y
  decide

@[simp] theorem bit_and (x y : Bool) : bit (x && y) = bit x * bit y := by
  revert x y
  decide

theorem bit_injective : Function.Injective bit := by
  unfold Function.Injective
  decide

theorem bit_surjective : Function.Surjective bit := by
  unfold Function.Surjective
  decide

/-- An entry of the product. -/
theorem bit_combine : bit ((combine C n g).getLsbD i)
    = ∑ b ∈ Finset.range n, bit ((C b).getLsbD i) * bit (g.testBit b) := by
  induction n with
  | zero => simp [combine]
  | succ n ih =>
    rw [combine_succ, BitVec.getLsbD_xor, bit_xor, ih, Finset.sum_range_succ]
    congr 1
    cases g.testBit n <;> simp

/-- A row of the product depends only on that row of the columns. -/
theorem getLsbD_combine_congr {v j : Nat} {D : Nat → BitVec v}
    (hrow : ∀ b < n, (C b).getLsbD i = (D b).getLsbD j) :
    (combine C n g).getLsbD i = (combine D n g).getLsbD j := by
  refine bit_injective ?_
  rw [bit_combine, bit_combine]
  exact Finset.sum_congr rfl fun b hb => by rw [hrow b (Finset.mem_range.mp hb)]

/-- Only the bits of the first columns matter. -/
theorem combine_congr (hbit : ∀ b < n, g.testBit b = h.testBit b) :
    combine C n g = combine C n h := by
  induction n with
  | zero => rfl
  | succ n ih =>
    rw [combine_succ, combine_succ, hbit n n.lt_succ_self, ih fun b hb => hbit b (by omega)]

/-! ## Matrices -/

/-- The first `r` rows of the first `n` columns. -/
def toMatrix (C : Nat → BitVec w) (r n : Nat) : Matrix (Fin r) (Fin n) (ZMod 2) :=
  fun i j => bit ((C j).getLsbD i)

theorem toMatrix_mulVec (r n g : Nat) :
    (toMatrix C r n).mulVec (fun b => bit (g.testBit b)) =
      fun i : Fin r => bit ((combine C n g).getLsbD i) := by
  funext i
  rw [bit_combine, Finset.sum_range]
  rfl

section Product

variable {v t r : Nat} {A : Nat → BitVec w} {B : Nat → BitVec v}

theorem toMatrix_combine :
    toMatrix (fun j => combine A t (B j).toNat) r n = toMatrix A r t * toMatrix B t n := by
  ext i j
  rw [Matrix.mul_apply, toMatrix, bit_combine, Finset.sum_range]
  simp only [toMatrix, BitVec.testBit_toNat]

variable (hzero : ∀ i k, i < k → k < t → (A k).getLsbD i = false)
include hzero

/-- The first rows of a product with a lower triangular matrix. -/
theorem toMatrix_combine_of_le (hr : r ≤ t) :
    toMatrix (fun j => combine A t (B j).toNat) r n = toMatrix A r r * toMatrix B r n := by
  ext i j
  rw [Matrix.mul_apply, toMatrix, bit_combine,
    ← Finset.sum_subset (Finset.range_mono hr) (fun k hk hkr => ?_), Finset.sum_range]
  · simp only [toMatrix, BitVec.testBit_toNat]
  · rw [Finset.mem_range] at hk hkr
    rw [hzero i k (by omega) hk, bit_false, zero_mul]

variable (hone : ∀ k < t, (A k).getLsbD k = true)
include hone

theorem isUnit_det_toMatrix (hr : r ≤ t) : IsUnit (toMatrix A r r).det := by
  have hlow : (toMatrix A r r).IsLowerTriangular := fun i k hik => by
    rw [toMatrix, hzero i k hik (by omega), bit_false]
  rw [Matrix.det_of_isLowerTriangular _ hlow]
  have hdiag : ∀ i : Fin r, toMatrix A r r i i = 1 := fun i => by
    rw [toMatrix, hone i (by omega), bit_true]
  simp [hdiag]

/-- On any columns, the first rows have the rank of the right factor. -/
theorem rank_combine (hr : r ≤ t) {S : Type*} [Fintype S] (f : S → Fin n) :
    ((toMatrix (fun j => combine A t (B j).toNat) r n).submatrix id f).rank =
      ((toMatrix B r n).submatrix id f).rank := by
  rw [toMatrix_combine_of_le hzero hr]
  exact Matrix.rank_mul_eq_right_of_isUnit_det _ ((toMatrix B r n).submatrix id f)
    (isUnit_det_toMatrix hzero hone hr)

end Product

/-- The first rows of an invertible leading block tell the selections of its columns apart. -/
theorem eq_of_isUnit_det {m : Nat} (hdet : IsUnit (toMatrix C m m).det) (hm : m ≤ n)
    (hg : g < 2 ^ m) (hh : h < 2 ^ m)
    (heq : ∀ i < m, (combine C n g).getLsbD i = (combine C n h).getLsbD i) : g = h := by
  rw [combine_of_lt hg hm, combine_of_lt hh hm] at heq
  have hvec : (toMatrix C m m).mulVec (fun b => bit (g.testBit b)) =
      (toMatrix C m m).mulVec (fun b => bit (h.testBit b)) := by
    rw [toMatrix_mulVec, toMatrix_mulVec]
    exact funext fun i => congrArg bit (heq i i.2)
  have hbits := Matrix.mulVec_injective_of_isUnit ((Matrix.isUnit_iff_isUnit_det _).mpr hdet) hvec
  refine Nat.eq_of_testBit_eq fun b => ?_
  rcases Nat.lt_or_ge b m with hb | hb
  · exact bit_injective (congrFun hbits ⟨b, hb⟩)
  · have hpow : 2 ^ m ≤ 2 ^ b := Nat.pow_le_pow_right (by decide) hb
    rw [Nat.testBit_lt_two_pow (hg.trans_le hpow), Nat.testBit_lt_two_pow (hh.trans_le hpow)]

end XorColumns
