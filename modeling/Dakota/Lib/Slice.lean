import Dakota.Lib.Numerals
import Mathlib

/-!
# Slices of a list

A view of a part of an array: `slice` reads it, `overwrite` assigns to it.

* `slice_overwrite_slice`: an assigned slice reads back.
* `slice_eq_iff`: equality of slices, element by element.
-/

namespace Dakota

variable {α : Type} {l l' new : List α} {start num i : Nat}

/-- The elements at `num` positions from `start` on. -/
def slice (l : List α) (start num : Nat) : List α := (l.drop start).take num

/-- `l` with the elements from position `start` on replaced by those of `new`. -/
def overwrite (l : List α) (start : Nat) (new : List α) : List α :=
  l.mapIdx fun i a => if start ≤ i then new.getD (i - start) a else a

@[simp] theorem slice_zero_num : slice l start 0 = [] := List.take_zero

theorem slice_all (h : l.length = num) : slice l 0 num = l := by
  rw [slice, List.drop_zero, ← h, List.take_length]

theorem length_slice : (slice l start num).length = min num (l.length - start) := by
  rw [slice, List.length_take, List.length_drop]

theorem getElem?_slice (hi : i < num) : (slice l start num)[i]? = l[start + i]? := by
  rw [slice, List.getElem?_take_of_lt hi, List.getElem?_drop]

theorem getElem?_slice_of_le (hi : num ≤ i) : (slice l start num)[i]? = none :=
  List.getElem?_take_eq_none hi

theorem slice_eq_iff :
    slice l start num = slice l' start num ↔
      ∀ i, start ≤ i → i < start + num → l[i]? = l'[i]? := by
  rw [List.ext_getElem?_iff]
  constructor
  · intro h i hlo hhi
    have := h (i - start)
    rwa [getElem?_slice (by omega), getElem?_slice (by omega), Nat.add_sub_cancel' hlo] at this
  · intro h i
    rcases Nat.lt_or_ge i num with hi | hi
    · rw [getElem?_slice hi, getElem?_slice hi]
      exact h _ (by omega) (by omega)
    · rw [getElem?_slice_of_le hi, getElem?_slice_of_le hi]

@[simp] theorem length_overwrite : (overwrite l start new).length = l.length :=
  List.length_mapIdx

theorem getElem?_overwrite : (overwrite l start new)[i]? =
    l[i]?.map fun a => if start ≤ i then new.getD (i - start) a else a :=
  List.getElem?_mapIdx

/-- Each element of `overwrite` with a slice of `l'` is one of `l` or of `l'`. -/
theorem getElem?_overwrite_slice (hlen : l'.length = l.length) :
    (overwrite l start (slice l' start num))[i]? =
      if start ≤ i ∧ i < start + num then l'[i]? else l[i]? := by
  rw [getElem?_overwrite]
  by_cases hlo : start ≤ i
  · by_cases hhi : i < start + num
    · simp only [hlo, hhi, and_self, if_true, List.getD_eq_getElem?_getD]
      rw [getElem?_slice (by omega), Nat.add_sub_cancel' hlo]
      rcases Nat.lt_or_ge i l.length with hi | hi
      · rw [List.getElem?_eq_getElem hi, List.getElem?_eq_getElem (hlen ▸ hi)]
        rfl
      · rw [List.getElem?_eq_none hi, List.getElem?_eq_none (hlen.trans_le hi)]
        rfl
    · simp only [hlo, hhi, and_false, if_true, if_false, List.getD_eq_getElem?_getD]
      rw [getElem?_slice_of_le (by omega)]
      simp
  · simp [hlo]

/-- The slice that was assigned. -/
theorem slice_overwrite_slice (hlen : l'.length = l.length) :
    slice (overwrite l start (slice l' start num)) start num = slice l' start num := by
  rw [slice_eq_iff]
  intro i hlo hhi
  rw [getElem?_overwrite_slice hlen, if_pos ⟨hlo, hhi⟩]

/-- Another slice that agreed still agrees. -/
theorem slice_overwrite_of_agree {start' num' : Nat} (hlen : l'.length = l.length)
    (h : slice l start' num' = slice l' start' num') :
    slice (overwrite l start (slice l' start num)) start' num' = slice l' start' num' := by
  rw [slice_eq_iff] at h ⊢
  intro i hlo hhi
  rw [getElem?_overwrite_slice hlen]
  split
  · rfl
  · exact h i hlo hhi

/-- Assigning all the elements. -/
theorem overwrite_zero (hlen : l'.length = l.length) : overwrite l 0 l' = l' := by
  have hall : slice l' 0 l'.length = l' := slice_all rfl
  refine List.ext_getElem? fun i => ?_
  conv_lhs => rw [← hall]
  rw [getElem?_overwrite_slice hlen]
  split
  · rfl
  · rw [List.getElem?_eq_none (by omega), List.getElem?_eq_none (by omega)]

end Dakota
