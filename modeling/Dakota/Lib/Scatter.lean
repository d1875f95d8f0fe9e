import Dakota.Lib.Numerals
import Mathlib

/-!
# Writes to the slots of a vector

A loop of assignments `vec[slot] = value`, as the list of its writes in order.

* `scatter_of_notMem`, `scatter_of_mem`: a slot that no write goes to, and one to which all writes
  are of the same value.
* `enumFrom`: the writes of a list to consecutive slots; `scatter_enumFrom` reads them back, and
  `scatter_zipIdx` reads any slot.
* `exists_unwritten`: an offset that is left out for some of the slots leaves one unwritten.
-/

namespace Dakota

variable {K : Type} {vec : Nat → K} {writes writes' : List (Nat × K)} {values values' : List K}
  {slot start : Nat} {x : K}

/-- The vector after the writes. -/
def scatter (vec : Nat → K) (writes : List (Nat × K)) : Nat → K :=
  writes.foldl (fun vec w => Function.update vec w.1 w.2) vec

theorem scatter_cons {w : Nat × K} :
    scatter vec (w :: writes) = scatter (Function.update vec w.1 w.2) writes := rfl

theorem scatter_append : scatter vec (writes ++ writes') = scatter (scatter vec writes) writes' :=
  List.foldl_append

theorem scatter_of_notMem (h : slot ∉ writes.map (·.1)) : scatter vec writes slot = vec slot := by
  induction writes generalizing vec with
  | nil => rfl
  | cons w writes ih =>
    rw [List.map_cons, List.mem_cons, not_or] at h
    rw [scatter_cons, ih h.2, Function.update_of_ne h.1]

theorem scatter_of_mem (hmem : (slot, x) ∈ writes) (hall : ∀ y, (slot, y) ∈ writes → y = x) :
    scatter vec writes slot = x := by
  induction writes generalizing vec with
  | nil => cases hmem
  | cons w writes ih =>
    rw [scatter_cons]
    by_cases hlater : slot ∈ writes.map (·.1)
    · obtain ⟨⟨slot', y⟩, hy, rfl⟩ := List.mem_map.mp hlater
      have hyx : y = x := hall y (List.mem_cons_of_mem w hy)
      subst hyx
      exact ih hy fun z hz => hall z (List.mem_cons_of_mem w hz)
    · rcases List.mem_cons.mp hmem with rfl | hmem
      · rw [scatter_of_notMem hlater, Function.update_self]
      · exact (hlater (List.mem_map_of_mem hmem)).elim

/-- The writes of a list to the slots from `start` on. -/
def enumFrom (start : Nat) (values : List K) : List (Nat × K) :=
  values.mapIdx fun i x => (i + start, x)

theorem enumFrom_nil : enumFrom start ([] : List K) = [] := rfl

theorem enumFrom_cons : enumFrom start (x :: values) = (start, x) :: enumFrom (start + 1) values := by
  simp [enumFrom, List.mapIdx_cons, Nat.add_assoc, Nat.add_comm 1]

theorem enumFrom_append :
    enumFrom start (values ++ values') =
      enumFrom start values ++ enumFrom (start + values.length) values' := by
  induction values generalizing start with
  | nil => rfl
  | cons x values ih =>
    rw [List.cons_append, enumFrom_cons, enumFrom_cons, ih, List.cons_append, List.length_cons,
      Nat.add_assoc, Nat.add_comm 1]

theorem map_fst_enumFrom : (enumFrom start values).map (·.1) = List.range' start values.length := by
  induction values generalizing start with
  | nil => rfl
  | cons x values ih =>
    rw [enumFrom_cons, List.map_cons, ih, List.length_cons, List.range'_succ]

theorem mem_enumFrom_zero : (slot, x) ∈ enumFrom 0 values ↔ values[slot]? = some x := by
  simp only [enumFrom, Nat.add_zero, List.mem_mapIdx, Prod.mk.injEq, List.getElem?_eq_some_iff]
  constructor
  · rintro ⟨i, hi, rfl, rfl⟩
    exact ⟨hi, rfl⟩
  · rintro ⟨hi, rfl⟩
    exact ⟨slot, hi, rfl, rfl⟩

theorem scatter_enumFrom (h : values[slot]? = some x) : scatter vec (enumFrom 0 values) slot = x := by
  refine scatter_of_mem (mem_enumFrom_zero.mpr h) fun y hy => ?_
  exact Option.some.inj ((mem_enumFrom_zero.mp hy).symm.trans h)

/-- The writes of a list to consecutive slots, read at any slot. -/
theorem scatter_zipIdx {α : Type} {l : List α} {f : α → K} :
    scatter vec (l.zipIdx.map fun p => (p.2 + start, f p.1)) slot =
      if start ≤ slot then (l[slot - start]?.map f).getD (vec slot) else vec slot := by
  have hmem (y : K) : (slot, y) ∈ l.zipIdx.map (fun p => (p.2 + start, f p.1)) ↔
      start ≤ slot ∧ l[slot - start]?.map f = some y := by
    simp only [List.mem_map, Prod.mk.injEq, Prod.exists, List.mk_mem_zipIdx_iff_getElem?,
      Option.map_eq_some_iff]
    constructor
    · rintro ⟨a, i, hget, rfl, rfl⟩
      exact ⟨Nat.le_add_left _ _, a, by rwa [Nat.add_sub_cancel], rfl⟩
    · rintro ⟨hle, a, hget, rfl⟩
      exact ⟨a, slot - start, hget, Nat.sub_add_cancel hle, rfl⟩
  by_cases hwritten : ∃ y, start ≤ slot ∧ l[slot - start]?.map f = some y
  · obtain ⟨y, hle, hget⟩ := hwritten
    rw [if_pos hle, hget]
    refine scatter_of_mem ((hmem y).mpr ⟨hle, hget⟩) fun z hz => ?_
    exact Option.some.inj (((hmem z).mp hz).2.symm.trans hget)
  · rw [scatter_of_notMem]
    · split_ifs with hle
      · cases hget : l[slot - start]?.map f with
        | none => rfl
        | some y => exact (hwritten ⟨y, hle, hget⟩).elim
      · rfl
    · intro hslot
      obtain ⟨⟨slot', y⟩, hy, rfl⟩ := List.mem_map.mp hslot
      exact hwritten ⟨y, (hmem y).mp hy⟩

/-- If some of the slots miss the offset, the last of them, with the offset, is not written. -/
theorem exists_unwritten {n offset : Nat} (hoffset : 0 < offset) (good : Nat → Bool)
    (hbad : ∃ i < n, good i = false) :
    ∃ i < n, ∀ j < n, (if good j then j + offset else j) ≠ i + offset := by
  have hne : ((Finset.range n).filter fun i => good i = false).Nonempty := by
    obtain ⟨i, hi, hg⟩ := hbad
    exact ⟨i, Finset.mem_filter.mpr ⟨Finset.mem_range.mpr hi, hg⟩⟩
  obtain ⟨i, hi, hmax⟩ := Finset.exists_max_image _ id hne
  obtain ⟨hi, hg⟩ := Finset.mem_filter.mp hi
  refine ⟨i, Finset.mem_range.mp hi, fun j hj heq => ?_⟩
  cases hgj : good j with
  | true =>
    rw [hgj, if_pos rfl, Nat.add_right_cancel_iff] at heq
    rw [heq, hg] at hgj
    cases hgj
  | false =>
    have hle : j ≤ i := hmax j (Finset.mem_filter.mpr ⟨Finset.mem_range.mpr hj, hgj⟩)
    rw [hgj, if_neg Bool.false_ne_true] at heq
    omega

end Dakota
