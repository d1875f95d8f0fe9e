import Dakota.Lib.Numerals
import Mathlib

/-!
# Offsets around a centre

The nonzero integers from `-n` to `n` in their order (`offsets`), and their enumeration block by block
for a list of such numbers (`offsetPairs`).

* `getElem?_offsets`: which offset stands at a position.
* `mem_offsetPairs`, `nodup_offsetPairs`: each pair of a block and an offset of it, once.
-/

namespace CenteredOffsets

/-- The nonzero integers from `-n` to `n`. -/
def offsets (n : ℤ) : List ℤ :=
  ((List.range (n + 1 - -n).toNat).map fun (i : ℕ) => -n + i).filter (· ≠ 0)

/-- Offset after offset and block after block, each with the index of its block. -/
def offsetPairs (ns : List ℤ) (start : ℕ) : List (ℕ × ℤ) :=
  (ns.zipIdx start).flatMap fun p => (offsets p.1).map fun k => (p.2, k)

variable {n k : ℤ} {ns ns' : List ℤ} {start block : ℕ}

theorem mem_offsets : k ∈ offsets n ↔ k ≠ 0 ∧ |k| ≤ n := by
  unfold offsets
  simp only [List.mem_filter, List.mem_map, List.mem_range, decide_eq_true_eq, abs_le]
  constructor
  · rintro ⟨⟨i, hi, rfl⟩, hne⟩
    omega
  · rintro ⟨hne, hle, hge⟩
    exact ⟨⟨(k + n).toNat, by omega, by omega⟩, hne⟩

theorem nodup_offsets (n : ℤ) : (offsets n).Nodup := by
  refine (List.Nodup.map (fun i j h => ?_) List.nodup_range).filter _
  simpa using h

theorem offsets_of_neg (h : n < 0) : offsets n = [] := by
  rw [List.eq_nil_iff_forall_not_mem]
  intro k hk
  obtain ⟨-, hle⟩ := mem_offsets.mp hk
  exact absurd ((abs_nonneg k).trans hle) (not_le.mpr h)

/-- The offsets below zero, and those above. -/
theorem offsets_natCast (n : ℕ) : offsets n =
    ((List.range n).map fun (i : ℕ) => (i - n : ℤ)) ++ (List.range n).map fun (i : ℕ) => (i + 1 : ℤ) := by
  have hlen : ((n : ℤ) + 1 - -(n : ℤ)).toNat = n + (1 + n) := by omega
  unfold offsets
  rw [hlen, List.range_add, List.range_add]
  simp only [List.map_append, List.map_map, List.filter_append]
  congr 1
  · rw [List.filter_eq_self.mpr]
    · exact List.map_congr_left fun i _ => by omega
    · simp only [List.mem_map, List.mem_range, decide_eq_true_eq]
      rintro _ ⟨i, hi, rfl⟩
      omega
  · rw [List.filter_eq_nil_iff.mpr, List.nil_append, List.filter_eq_self.mpr]
    · refine List.map_congr_left fun i _ => ?_
      simp only [Function.comp_apply]
      omega
    · simp only [List.mem_map, List.mem_range, decide_eq_true_eq, Function.comp_apply]
      rintro _ ⟨i, hi, rfl⟩
      omega
    · simp [List.range_one]

theorem length_offsets (n : ℤ) : (offsets n).length = (2 * n).toNat := by
  rcases lt_or_ge n 0 with h | h
  · rw [offsets_of_neg h, List.length_nil]
    omega
  · obtain ⟨m, rfl⟩ := Int.eq_ofNat_of_zero_le h
    rw [offsets_natCast, List.length_append, List.length_map, List.length_map, List.length_range]
    omega

/-- The offset at a position: the centre is left out. -/
theorem getElem?_offsets {n p : ℕ} (h : p < 2 * n) :
    (offsets n)[p]? = some (if p < n then (p - n : ℤ) else p - n + 1) := by
  rw [offsets_natCast]
  split_ifs with hp
  · rw [List.getElem?_append_left (by simpa using hp), List.getElem?_map,
      List.getElem?_range hp]
    rfl
  · have hle : n ≤ p := not_lt.mp hp
    rw [List.getElem?_append_right (by simpa using hle), List.getElem?_map, List.length_map,
      List.length_range, List.getElem?_range (by omega)]
    simp only [Option.map_some, Option.some.injEq]
    omega

/-! ## Blocks -/

theorem offsetPairs_nil : offsetPairs [] start = [] := rfl

theorem offsetPairs_cons : offsetPairs (n :: ns) start =
    (offsets n).map (fun k => (start, k)) ++ offsetPairs ns (start + 1) := rfl

theorem length_offsetPairs :
    (offsetPairs ns start).length = (ns.map fun n => (2 * n).toNat).sum := by
  induction ns generalizing start with
  | nil => rfl
  | cons n ns ih =>
    rw [offsetPairs_cons, List.length_append, List.length_map, length_offsets, ih, List.map_cons,
      List.sum_cons]

theorem mem_offsetPairs : (block, k) ∈ offsetPairs ns start ↔
    start ≤ block ∧ ∃ n, ns[block - start]? = some n ∧ k ≠ 0 ∧ |k| ≤ n := by
  induction ns generalizing start with
  | nil => simp [offsetPairs_nil]
  | cons n ns ih =>
    rw [offsetPairs_cons, List.mem_append, ih]
    have hmap : (block, k) ∈ (offsets n).map (fun k => (start, k)) ↔
        block = start ∧ k ≠ 0 ∧ |k| ≤ n := by
      rw [List.mem_map, ← mem_offsets]
      constructor
      · rintro ⟨_, hk, heq⟩
        cases heq
        exact ⟨rfl, hk⟩
      · rintro ⟨rfl, hk⟩
        exact ⟨k, hk, rfl⟩
    rw [hmap]
    rcases lt_trichotomy block start with hlt | rfl | hgt
    · constructor
      · rintro (⟨rfl, -⟩ | ⟨hle, -⟩) <;> omega
      · rintro ⟨hle, -⟩
        omega
    · simp
    · have hsub : block - start = block - (start + 1) + 1 := by omega
      rw [hsub, List.getElem?_cons_succ]
      constructor
      · rintro (⟨rfl, -⟩ | ⟨-, h⟩)
        · omega
        · exact ⟨by omega, h⟩
      · rintro ⟨-, h⟩
        exact .inr ⟨by omega, h⟩

theorem nodup_offsetPairs : (offsetPairs ns start).Nodup := by
  induction ns generalizing start with
  | nil => exact List.nodup_nil
  | cons n ns ih =>
    rw [offsetPairs_cons]
    refine List.Nodup.append ((nodup_offsets n).map fun a b h => (Prod.ext_iff.mp h).2) ih ?_
    intro p hp hp'
    obtain ⟨k, -, rfl⟩ := List.mem_map.mp hp
    have hle := (mem_offsetPairs.mp hp').1
    omega

end CenteredOffsets
