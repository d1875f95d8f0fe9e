import Dakota.Lib.Numerals
import Mathlib

/-!
# C integers

Arithmetic of `int` and its conversions.

* `checkedInt`: the result of an operation on `int`s. A result that does not fit is an error, since
  nothing is promised then.
* `narrow`: the conversion of a wider integer to `int`. `narrow_mem_iff`: as an index, the converted
  sum of a position and an `int` says what the sum itself says.
* `intRange`: the values of an `int` counter of a loop.
-/

namespace CInt

variable {ε : Type} {e : ε} {x y : ℤ}

/-- The values of `int`. -/
def IsInt (x : ℤ) : Prop := -2 ^ 31 ≤ x ∧ x < 2 ^ 31

instance (x : ℤ) : Decidable (IsInt x) := inferInstanceAs (Decidable (_ ∧ _))

def checkedInt (e : ε) (x : ℤ) : Except ε ℤ := if IsInt x then .ok x else .error e

theorem checkedInt_of_isInt (h : IsInt x) : checkedInt e x = .ok x := if_pos h

theorem checkedInt_eq_ok : checkedInt e x = .ok y ↔ IsInt x ∧ y = x := by
  unfold checkedInt
  split_ifs with h
  · rw [Except.ok.injEq]
    exact ⟨fun hy => ⟨h, hy.symm⟩, fun hy => hy.2.symm⟩
  · simp [h]

/-- The conversion to `int`. -/
def narrow (x : ℤ) : ℤ := x.bmod (2 ^ 32)

theorem narrow_of_isInt (h : IsInt x) : narrow x = x := by
  unfold IsInt at h
  unfold narrow
  rw [Int.bmod_def]
  omega

/-- A narrowed sum of a position (or `-1`) and an `int` is a position below a bound that fits if and
only if the sum is. -/
theorem narrow_mem_iff {position p size : ℤ} (hpos : -1 ≤ position) (hlt : position < 2 ^ 31)
    (hp : IsInt p) (hsize : size < 2 ^ 31) :
    0 ≤ narrow (position + p) ∧ narrow (position + p) < size ↔
      0 ≤ position + p ∧ position + p < size := by
  unfold IsInt at hp
  unfold narrow
  rw [Int.bmod_def]
  omega

theorem narrow_add_pow (x : ℤ) : narrow (2 ^ 64 - 1 + x) = narrow (-1 + x) := by
  unfold narrow
  have h : (2 ^ 64 - 1 + x : ℤ) = -1 + x + (2 ^ 32 : ℕ) * 2 ^ 32 := by ring
  rw [h]
  exact Int.add_mul_bmod_self_left ..

/-- The values of `i` in `for (i=lo; i<=hi; ++i)`. The loop over all `int`s from `lo` on does not end. -/
def intRange (e : ε) (lo hi : ℤ) : Except ε (List ℤ) :=
  if lo ≤ hi then do
    let _ ← checkedInt e (hi + 1)
    pure ((List.range (hi + 1 - lo).toNat).map fun (i : ℕ) => lo + i)
  else pure []

theorem intRange_of_isInt {lo hi : ℤ} (h : IsInt (hi + 1)) :
    intRange e lo hi = .ok ((List.range (hi + 1 - lo).toNat).map fun (i : ℕ) => lo + i) := by
  unfold intRange
  split_ifs with hle
  · rw [checkedInt_of_isInt h]
    rfl
  · have h0 : (hi + 1 - lo).toNat = 0 := by omega
    rw [h0]
    rfl

end CInt
