import Dakota.Lib.Numerals
import Mathlib

/-!
# The Gray code

`gray k` is `k` xor its half.

* `exists_gray_step`: from `k - 1` to `k` one bit changes, the lowest set bit of `k`.
* `gray_injective`, `gray_mem_block`: a permutation of each block `[2 ^ q, 2 ^ (q + 1))`, which
  exchanges the halves of the block (`mid_le_gray`).
* `start_of_invariant`: an interval whose length is a power of two is invariant only if it starts
  at 0 or at its length.
-/

namespace GrayCode

variable {k q a n t i : Nat}

def gray (k : Nat) : Nat := k ^^^ (k >>> 1)

theorem testBit_gray : (gray k).testBit i = (k.testBit i ^^ k.testBit (i + 1)) := by
  rw [gray, Nat.testBit_xor, Nat.testBit_shiftRight, Nat.add_comm 1]

@[simp] theorem gray_zero : gray 0 = 0 := rfl

theorem gray_injective : Function.Injective gray := by
  intro x y h
  have hz : x ^^^ y = (x ^^^ y) >>> 1 := by
    rw [← Nat.xor_eq_zero_iff] at h ⊢
    rw [← h, gray, gray, Nat.shiftRight_xor_distrib]
    ac_rfl
  rw [Nat.shiftRight_one] at hz
  exact Nat.xor_eq_zero_iff.mp (by omega)

theorem gray_lt (h : k < 2 ^ q) : gray k < 2 ^ q :=
  Nat.xor_lt_two_pow h ((Nat.shiftRight_le k 1).trans_lt h)

/-! ## Steps -/

/-- The lowest set bit of a positive number. -/
theorem exists_lowest (hk : k ≠ 0) : ∃ t, k.testBit t ∧ ∀ j < t, k.testBit j = false := by
  have hex : ∃ t, k.testBit t := by
    by_contra hno
    push Not at hno
    exact hk (Nat.eq_of_testBit_eq fun i => by simpa using hno i)
  exact ⟨Nat.find hex, Nat.find_spec hex, fun j hj => by simpa using Nat.find_min hex hj⟩

/-- A step of a counter flips the bits up to the lowest set one. -/
theorem testBit_xor_pred (ht : k.testBit t) (hlow : ∀ j < t, k.testBit j = false) :
    (k ^^^ (k - 1)).testBit i = decide (i ≤ t) := by
  obtain ⟨c, rfl⟩ : ∃ c, k = 2 ^ t * (2 * c + 1) := by
    have hdvd : k % 2 ^ t = 0 := by
      refine Nat.eq_of_testBit_eq fun j => ?_
      rw [Nat.testBit_mod_two_pow, Nat.zero_testBit]
      by_cases hj : j < t
      · simp [hlow j hj]
      · simp [hj]
    have hodd : k / 2 ^ t % 2 = 1 := by
      rw [Nat.testBit_eq_decide_div_mod_eq] at ht
      exact of_decide_eq_true ht
    refine ⟨k / 2 ^ t / 2, ?_⟩
    rw [← Nat.div_add_mod k (2 ^ t), hdvd]
    rw [Nat.add_zero, Nat.mul_div_cancel_left _ (by positivity)]
    congr 1
    omega
  have hpos : 0 < 2 ^ t := by positivity
  have hpred : 2 ^ t * (2 * c + 1) - 1 = 2 ^ t * (2 * c) + (2 ^ t - 1) := by
    rw [Nat.mul_add, Nat.mul_one]
    omega
  have hself : 2 ^ t * (2 * c + 1) = 2 ^ t * (2 * c + 1) + 0 := rfl
  rw [Nat.testBit_xor, hpred, Nat.testBit_two_pow_mul_add _ (by omega), hself,
    Nat.testBit_two_pow_mul_add _ hpos]
  by_cases hi : i < t
  · simp [hi, hi.le]
  · rw [if_neg hi, if_neg hi]
    obtain ⟨d, rfl⟩ : ∃ d, i = t + d := ⟨i - t, by omega⟩
    rw [Nat.add_sub_cancel_left]
    cases d with
    | zero => simp [Nat.testBit_zero]
    | succ d =>
      simp only [Nat.testBit_succ, show (2 * c + 1) / 2 = c by omega, show 2 * c / 2 = c by omega]
      simp

/-- One bit changes. -/
theorem gray_xor_gray_pred (ht : k.testBit t) (hlow : ∀ j < t, k.testBit j = false) :
    gray k = gray (k - 1) ^^^ 2 ^ t := by
  refine Nat.eq_of_testBit_eq fun i => ?_
  have h₀ := testBit_xor_pred (i := i) ht hlow
  have h₁ := testBit_xor_pred (i := i + 1) ht hlow
  rw [Nat.testBit_xor] at h₀ h₁
  rw [Nat.testBit_xor, testBit_gray, testBit_gray, Nat.testBit_two_pow]
  have hsplit : (k.testBit i ^^ k.testBit (i + 1)) =
      (((k - 1).testBit i ^^ (k - 1).testBit (i + 1)) ^^
        (decide (i ≤ t) ^^ decide (i + 1 ≤ t))) := by
    rw [← h₀, ← h₁]
    generalize k.testBit i = x, k.testBit (i + 1) = y, (k - 1).testBit i = z,
      (k - 1).testBit (i + 1) = w
    revert x y z w
    decide
  rw [hsplit]
  congr 1
  by_cases hi : i = t
  · simp [hi]
  · simp only [show (t = i) = False by simp; omega, decide_false]
    by_cases hle : i ≤ t
    · simp [hle, show i + 1 ≤ t by omega]
    · simp [hle, show ¬ i + 1 ≤ t by omega]

/-! ## Blocks -/

theorem testBit_top (h₁ : 2 ^ q ≤ k) (h₂ : k < 2 ^ (q + 1)) : k.testBit q := by
  have hdiv : k / 2 ^ q = 1 := by
    rw [pow_succ] at h₂
    exact Nat.div_eq_of_lt_le (by omega) (by omega)
  rw [Nat.testBit_eq_decide_div_mod_eq, hdiv]
  rfl

theorem gray_mem_block (h₁ : 2 ^ q ≤ k) (h₂ : k < 2 ^ (q + 1)) :
    2 ^ q ≤ gray k ∧ gray k < 2 ^ (q + 1) := by
  refine ⟨Nat.ge_two_pow_of_testBit ?_, gray_lt h₂⟩
  rw [testBit_gray, testBit_top h₁ h₂, Nat.testBit_lt_two_pow h₂]
  rfl

/-- The upper half of a block. -/
theorem testBit_half (h₁ : 2 ^ (q + 1) ≤ k) (h₂ : k < 2 ^ (q + 2)) :
    k.testBit q ↔ 2 ^ (q + 1) + 2 ^ q ≤ k := by
  have hpos : 0 < 2 ^ q := by positivity
  have hp₁ : 2 ^ (q + 1) = 2 * 2 ^ q := by ring
  have hp₂ : 2 ^ (q + 2) = 4 * 2 ^ q := by ring
  rw [Nat.testBit_eq_decide_div_mod_eq, decide_eq_true_eq]
  have hlo : 2 ≤ k / 2 ^ q := (Nat.le_div_iff_mul_le hpos).mpr (by omega)
  have hhi : k / 2 ^ q < 4 := (Nat.div_lt_iff_lt_mul hpos).mpr (by omega)
  have h3 : 3 ≤ k / 2 ^ q ↔ 2 ^ (q + 1) + 2 ^ q ≤ k := by
    rw [Nat.le_div_iff_mul_le hpos]
    omega
  omega

/-- The code exchanges the halves of a block. -/
theorem mid_le_gray (h₁ : 2 ^ (q + 1) ≤ k) (h₂ : k < 2 ^ (q + 2)) :
    2 ^ (q + 1) + 2 ^ q ≤ gray k ↔ k < 2 ^ (q + 1) + 2 ^ q := by
  obtain ⟨h₃, h₄⟩ := gray_mem_block h₁ h₂
  rw [← testBit_half h₃ h₄, ← not_le, ← testBit_half h₁ h₂, testBit_gray, testBit_top h₁ h₂]
  simp

/-- The last number of the lower half goes to the last quarter. -/
theorem gray_before_mid : 2 ^ (q + 2) + 2 ^ (q + 1) + 2 ^ q ≤ gray (2 ^ (q + 2) + 2 ^ (q + 1) - 1) := by
  set v := gray (2 ^ (q + 2) + 2 ^ (q + 1) - 1) with hv
  have hpos : 0 < 2 ^ q := by positivity
  have hp₁ : 2 ^ (q + 1) = 2 * 2 ^ q := by ring
  have hp₂ : 2 ^ (q + 2) = 4 * 2 ^ q := by ring
  have hp₃ : 2 ^ (q + 2 + 1) = 8 * 2 ^ q := by ring
  have hk : 2 ^ (q + 2) + 2 ^ (q + 1) - 1 = 2 ^ (q + 2) + (2 ^ (q + 1) - 1) := by omega
  have hbit (i : Nat) (hi : i < q + 2) :
      (2 ^ (q + 2) + 2 ^ (q + 1) - 1).testBit i = decide (i < q + 1) := by
    rw [hk, Nat.testBit_two_pow_add_gt hi, Nat.testBit_two_pow_sub_one]
  have htop : (2 ^ (q + 2) + 2 ^ (q + 1) - 1).testBit (q + 2) :=
    testBit_top (by omega) (by omega)
  have h₀ : v.testBit q := by rw [hv, testBit_gray, hbit q (by omega), hbit (q + 1) (by omega)]; simp
  have h₁ : v.testBit (q + 1) := by rw [hv, testBit_gray, hbit (q + 1) (by omega), htop]; simp
  have h₂ : 2 ^ (q + 2) ≤ v :=
    (gray_mem_block (by omega) (by omega)).1
  rw [Nat.testBit_eq_decide_div_mod_eq, decide_eq_true_eq] at h₀ h₁
  rw [hp₁, Nat.mul_comm, ← Nat.div_div_eq_div_mul] at h₁
  have h₄ : 4 ≤ v / 2 ^ q := (Nat.le_div_iff_mul_le hpos).mpr (by omega)
  have h₇ : 7 ≤ v / 2 ^ q := by omega
  rw [Nat.le_div_iff_mul_le hpos] at h₇
  omega

/-! ## Invariant intervals -/

/-- A block in an invariant interval is cut on both sides of its middle, at the same distance. -/
theorem cut_at_mid {s e : Nat} (hs : 2 ^ (q + 1) ≤ s) (he : e ≤ 2 ^ (q + 2)) (hse : s < e)
    (hinv : ∀ k, s ≤ k → k < e → s ≤ gray k ∧ gray k < e) :
    s < 2 ^ (q + 1) + 2 ^ q ∧ 2 ^ (q + 1) + 2 ^ q < e ∧
      2 ^ (q + 1) + 2 ^ q - s = e - (2 ^ (q + 1) + 2 ^ q) := by
  set mid := 2 ^ (q + 1) + 2 ^ q
  have hmid {k : Nat} (h₁ : s ≤ k) (h₂ : k < e) : mid ≤ gray k ↔ k < mid :=
    mid_le_gray (hs.trans h₁) (h₂.trans_le he)
  have hle : (Finset.Ico s (min mid e)).card ≤ (Finset.Ico (max mid s) e).card := by
    refine Finset.card_le_card_of_injOn gray (fun k hk => ?_) gray_injective.injOn
    simp only [Finset.coe_Ico, Set.mem_Ico] at hk ⊢
    have := hinv k (by omega) (by omega)
    have := (hmid (k := k) (by omega) (by omega)).mpr (by omega)
    omega
  have hge : (Finset.Ico (max mid s) e).card ≤ (Finset.Ico s (min mid e)).card := by
    refine Finset.card_le_card_of_injOn gray (fun k hk => ?_) gray_injective.injOn
    simp only [Finset.coe_Ico, Set.mem_Ico] at hk ⊢
    have := hinv k (by omega) (by omega)
    have := (hmid (k := k) (by omega) (by omega)).not.mpr (by omega)
    omega
  rw [Nat.card_Ico, Nat.card_Ico] at hle hge
  omega

/-- **Invariant intervals.** -/
theorem start_of_invariant {p : Nat}
    (hinv : ∀ k, a ≤ k → k < a + 2 ^ p → a ≤ gray k ∧ gray k < a + 2 ^ p) :
    a = 0 ∨ a = 2 ^ p := by
  have hpos : 0 < 2 ^ p := by positivity
  by_cases hk : a + 2 ^ p - 1 = 0
  · omega
  set q := Nat.log 2 (a + 2 ^ p - 1)
  have hlo : 2 ^ q ≤ a + 2 ^ p - 1 := Nat.pow_log_le_self 2 hk
  have hhi : a + 2 ^ p - 1 < 2 ^ (q + 1) := Nat.lt_pow_succ_log_self (by decide) _
  clear_value q
  cases q with
  | zero =>
    simp only [Nat.zero_add, pow_one, pow_zero] at hlo hhi
    omega
  | succ r =>
    have hr : 0 < 2 ^ r := by positivity
    have hp₁ : 2 ^ (r + 1) = 2 * 2 ^ r := by ring
    have hp₂ : 2 ^ (r + 2) = 4 * 2 ^ r := by ring
    rw [show r + 1 + 1 = r + 2 from rfl] at hhi
    -- The part of the interval in the last block.
    obtain ⟨hs, he, hcut⟩ := cut_at_mid (q := r) (s := max a (2 ^ (r + 1))) (e := a + 2 ^ p)
      (le_max_right ..) (by omega) (by omega) fun k h₁ h₂ => by
        have h₃ := hinv k (by omega) h₂
        have h₄ := (gray_mem_block (k := k) (q := r + 1) (by omega) (by
          rw [show r + 1 + 1 = r + 2 from rfl]
          omega)).1
        omega
    by_cases ha : 2 ^ (r + 1) ≤ a
    · rw [max_eq_left ha] at hcut
      have hgt : 2 ^ r < 2 ^ p := by
        cases r with
        | zero =>
          simp only [Nat.zero_add, pow_one, pow_zero] at *
          omega
        | succ r =>
          have hr₁ : 2 ^ (r + 1) = 2 * 2 ^ r := by ring
          have hr₂ : 2 ^ (r + 2) = 4 * 2 ^ r := by ring
          have hr₃ : 2 ^ (r + 1 + 1) = 4 * 2 ^ r := by ring
          have hlast := hinv (2 ^ (r + 2) + 2 ^ (r + 1) - 1) (by omega) (by omega)
          have hquarter := gray_before_mid (q := r)
          omega
      have hlt : r < p := (Nat.pow_lt_pow_iff_right (by decide)).mp hgt
      have hle : 2 ^ p ≤ 2 ^ (r + 1) := by omega
      have hp : p = r + 1 := by
        have := (Nat.pow_le_pow_iff_right (by decide)).mp hle
        omega
      subst hp
      omega
    · rw [max_eq_right (by omega)] at hcut
      have hlt : r + 1 < p := (Nat.pow_lt_pow_iff_right (a := 2) (by decide)).mp (by omega)
      have hle : 2 ^ (r + 2) ≤ 2 ^ p := Nat.pow_le_pow_right (by decide) hlt
      omega

/-- The intervals of that kind are invariant. -/
theorem invariant_of_start {p : Nat} (ha : a = 0 ∨ a = 2 ^ p) (h₁ : a ≤ k) (h₂ : k < a + 2 ^ p) :
    a ≤ gray k ∧ gray k < a + 2 ^ p := by
  rcases ha with rfl | rfl
  · rw [Nat.zero_add] at h₂ ⊢
    exact ⟨Nat.zero_le _, gray_lt h₂⟩
  · have hp : 2 ^ (p + 1) = 2 ^ p + 2 ^ p := by ring
    rw [← hp] at h₂ ⊢
    exact gray_mem_block h₁ h₂

end GrayCode
