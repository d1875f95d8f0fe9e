import Dakota.Lib.Numerals
import Mathlib

/-!
# Tiles over nodes

Tiles of `s` tasks, laid one after the other over nodes of `t` tasks each: tile `a` starts in node
`a * s / t` and takes `(s - 1) / t + 1` nodes, with its tasks spread evenly over them.

* `lastNode_lt`: a tile whose tasks are among those of the first `m` nodes ends in one of them.
* `load_le`: if one of `s` and `t` divides the other, no node gets more than `t` tasks.
* `sum_mod_range`: any `n` consecutive numbers take each remainder once.
-/

namespace Dakota

variable {s t a m c : ℤ}

/-- The node in which a tile starts. -/
def firstNode (s t a : ℤ) : ℤ := a * s / t

/-- The tasks of tile `a` on node `c`. -/
def tileLoad (s t a c : ℤ) : ℤ :=
  if firstNode s t a ≤ c ∧ c ≤ firstNode s t a + (s - 1) / t then s / ((s - 1) / t + 1) else 0

theorem firstNode_nonneg (hs : 0 < s) (ht : 0 < t) (ha : 0 ≤ a) : 0 ≤ firstNode s t a :=
  Int.ediv_nonneg (mul_nonneg ha hs.le) ht.le

theorem lastNode_lt (ht : 0 < t) (h : (a + 1) * s ≤ m * t) :
    firstNode s t a + (s - 1) / t < m := by
  have hfirst : a * s / t * t ≤ a * s := Int.ediv_mul_le _ ht.ne'
  have hrest : (s - 1) / t * t ≤ s - 1 := Int.ediv_mul_le _ ht.ne'
  refine lt_of_mul_lt_mul_right ?_ ht.le
  unfold firstNode
  linarith

/-- The nodes of a tile have room for its tasks. -/
theorem le_nodes_mul (ht : 0 < t) : s ≤ ((s - 1) / t + 1) * t := by
  have := Int.lt_ediv_add_one_mul_self (s - 1) ht
  omega

/-- Tiles within a node: those that start in it. -/
theorem tileLoad_of_dvd {q : ℤ} (hs : 0 < s) (hq : 0 < q) :
    tileLoad s (s * q) a c = if a / q = c then s else 0 := by
  have hwidth : (s - 1) / (s * q) = 0 := by
    refine Int.ediv_eq_zero_of_lt (by omega) ?_
    nlinarith
  have hfirst : firstNode s (s * q) a = a / q := by
    rw [firstNode, mul_comm a s, Int.mul_ediv_mul_of_pos _ _ hs]
  rw [tileLoad, hwidth, hfirst, add_zero, zero_add, Int.ediv_one]
  exact if_congr ⟨fun h => le_antisymm h.1 h.2, fun h => ⟨h.le, h.ge⟩⟩ rfl rfl

/-- Tiles of whole nodes: `q` nodes each. -/
theorem tileLoad_of_mul {q : ℤ} (ht : 0 < t) (hq : 0 < q) :
    tileLoad (t * q) t a c = if c / q = a then t else 0 := by
  have hwidth : (t * q - 1) / t = q - 1 := by
    rw [show t * q - 1 = (t - 1) + t * (q - 1) by ring, Int.add_mul_ediv_left _ _ ht.ne',
      Int.ediv_eq_zero_of_lt (by omega) (by omega), zero_add]
  have hfirst : firstNode (t * q) t a = a * q := by
    rw [firstNode, show a * (t * q) = t * (a * q) by ring, Int.mul_ediv_cancel_left _ ht.ne']
  rw [tileLoad, hwidth, hfirst, sub_add_cancel, Int.mul_ediv_cancel _ hq.ne']
  refine if_congr ?_ rfl rfl
  rw [Int.ediv_eq_iff_of_pos hq]
  constructor
  · rintro ⟨hlo, hhi⟩
    constructor <;> linarith
  · rintro ⟨hlo, hhi⟩
    constructor <;> linarith

/-- No node gets more tasks than it has slots. -/
theorem load_le (hs : 0 < s) (ht : 0 < t) (h : s ∣ t ∨ t ∣ s) (n : ℕ) :
    ∑ a ∈ Finset.range n, tileLoad s t a c ≤ t := by
  rcases h with ⟨q, rfl⟩ | ⟨q, rfl⟩
  · have hq : 0 < q := pos_of_mul_pos_right ht hs.le
    have hcard : ((Finset.range n).filter fun a : ℕ => (a : ℤ) / q = c).card ≤ q.toNat := by
      refine (Finset.card_le_card_of_injOn (Nat.cast : ℕ → ℤ) (fun a ha => ?_)
        fun a _ b _ hab => Nat.cast_injective hab).trans_eq
          (Int.card_Ico (c * q) (c * q + q) |>.trans (by rw [add_sub_cancel_left]))
      have hval : (a : ℤ) / q = c := (Finset.mem_filter.mp ha).2
      rw [Int.ediv_eq_iff_of_pos hq] at hval
      exact Finset.mem_coe.mpr (Finset.mem_Ico.mpr ⟨by linarith [hval.1], by linarith [hval.2]⟩)
    simp only [tileLoad_of_dvd hs hq]
    rw [← Finset.sum_filter, Finset.sum_const, nsmul_eq_mul, mul_comm]
    refine mul_le_mul_of_nonneg_left ?_ hs.le
    omega
  · have hq : 0 < q := pos_of_mul_pos_right hs ht.le
    have hcard : ((Finset.range n).filter fun a : ℕ => c / q = (a : ℤ)).card ≤ 1 := by
      refine Finset.card_le_one.mpr fun a ha b hb => ?_
      have ha' := (Finset.mem_filter.mp ha).2
      have hb' := (Finset.mem_filter.mp hb).2
      exact Nat.cast_injective (ha'.symm.trans hb')
    simp only [tileLoad_of_mul ht hq]
    rw [← Finset.sum_filter, Finset.sum_const, nsmul_eq_mul]
    exact mul_le_of_le_one_left ht.le (by exact_mod_cast hcard)

/-- Over any `n` consecutive numbers the remainders modulo `n` are all of them. -/
theorem sum_mod_range (f : ℕ → ℤ) (start n : ℕ) :
    ∑ k ∈ Finset.range n, f ((start + k) % n) = ∑ a ∈ Finset.range n, f a := by
  have hinj : Set.InjOn (fun k => (start + k) % n) (Finset.range n : Finset ℕ) := by
    intro k hk l hl hkl
    have hmod : k % n = l % n := Nat.ModEq.add_left_cancel' start hkl
    rwa [Nat.mod_eq_of_lt (Finset.mem_range.mp hk), Nat.mod_eq_of_lt (Finset.mem_range.mp hl)]
      at hmod
  have himage : (Finset.range n).image (fun k => (start + k) % n) = Finset.range n := by
    refine Finset.eq_of_subset_of_card_le (fun a ha => ?_) (Finset.card_image_of_injOn hinj).ge
    obtain ⟨k, hk, rfl⟩ := Finset.mem_image.mp ha
    exact Finset.mem_range.mpr (Nat.mod_lt _ (Nat.zero_lt_of_lt (Finset.mem_range.mp hk)))
  rw [← Finset.sum_image (f := f) hinj, himage]

end Dakota
