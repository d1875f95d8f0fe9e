import Dakota.Lib.Numerals
import Mathlib

/-!
# Maps from evaluation ids

`IntMap α` stands for the containers that are ordered by an integer key: `std::map<int, α>`, and
the multi-index queues under their evaluation ids. `toList` is the order of iteration.

Lookups after an update, membership and the set of ids, in the form that the proofs rewrite with.
-/

abbrev IntMap (α : Type*) := Std.ExtTreeMap Nat α

namespace IntMap

variable {α : Type*} {m : IntMap α} {k a : Nat} {v w : α}

@[simp] theorem get?_insert : (m.insert k v)[a]? = if a = k then some v else m[a]? := by
  rw [Std.ExtTreeMap.getElem?_insert]
  simp only [compare_eq_iff_eq, @eq_comm _ k]

@[simp] theorem get?_erase : (m.erase k)[a]? = if a = k then none else m[a]? := by
  rw [Std.ExtTreeMap.getElem?_erase]
  simp only [compare_eq_iff_eq, @eq_comm _ k]

theorem get?_empty : (∅ : IntMap α)[a]? = none := Std.ExtTreeMap.getElem?_empty

theorem mem_iff : k ∈ m ↔ ∃ v, m[k]? = some v := by
  rw [Std.ExtTreeMap.mem_iff_isSome_getElem?, Option.isSome_iff_exists]

theorem notMem_iff : k ∉ m ↔ m[k]? = none := by
  rw [Std.ExtTreeMap.mem_iff_isSome_getElem?, Bool.not_eq_true, Option.isSome_eq_false_iff,
    Option.isNone_iff_eq_none]

theorem mem_of_get? (h : m[k]? = some v) : k ∈ m := mem_iff.mpr ⟨v, h⟩

theorem mem_toList : (k, v) ∈ m.toList ↔ m[k]? = some v :=
  Std.ExtTreeMap.mem_toList_iff_getElem?_eq_some

/-- Iteration is in increasing order of the ids. -/
theorem pairwise_toList : m.toList.Pairwise fun p p' => p.1 < p'.1 := by
  have h := Std.ExtTreeMap.ordered_keys_toList (t := m)
  simpa only [Nat.compare_eq_lt] using h

theorem nodup_map_fst_toList : (m.toList.map Prod.fst).Nodup :=
  List.pairwise_map.mpr (pairwise_toList.imp Nat.ne_of_lt)

/-- The ids of a map. -/
def ids (m : IntMap α) : Finset Nat := (m.toList.map Prod.fst).toFinset

@[simp] theorem mem_ids : k ∈ ids m ↔ k ∈ m := by
  simp only [ids, List.mem_toFinset, List.mem_map, Prod.exists, mem_toList, mem_iff]
  simp

@[simp] theorem card_ids : (ids m).card = m.size := by
  rw [ids, List.toFinset_card_of_nodup nodup_map_fst_toList, List.length_map,
    Std.ExtTreeMap.length_toList]

@[simp] theorem ids_insert : ids (m.insert k v) = insert k (ids m) := by
  ext a
  simp only [mem_ids, Finset.mem_insert, mem_iff, get?_insert]
  split <;> simp [*]

@[simp] theorem ids_erase : ids (m.erase k) = (ids m).erase k := by
  ext a
  simp only [mem_ids, Finset.mem_erase, mem_iff, get?_erase]
  split <;> simp [*]

@[simp] theorem ids_empty : ids (∅ : IntMap α) = ∅ := by
  ext a
  simp

theorem size_insert_of_notMem (h : k ∉ m) : (m.insert k v).size = m.size + 1 := by
  rw [Std.ExtTreeMap.size_insert, if_neg]
  rwa [Std.ExtTreeMap.contains_iff_mem]

theorem size_erase_of_mem (h : k ∈ m) : (m.erase k).size + 1 = m.size := by
  have hpos : 0 < m.size := by
    rw [← card_ids, Finset.card_pos]
    exact ⟨k, mem_ids.mpr h⟩
  rw [Std.ExtTreeMap.size_erase, if_pos (Std.ExtTreeMap.contains_iff_mem.mpr h)]
  omega

theorem eq_empty_of_size (h : m.size = 0) : m = ∅ := by
  rwa [← Std.ExtTreeMap.isEmpty_iff, Std.ExtTreeMap.isEmpty_eq_size_beq_zero, beq_iff_eq]

theorem get?_ofList {l : List (Nat × α)} (h : (l.map Prod.fst).Nodup) :
    (Std.ExtTreeMap.ofList l compare)[k]? = some v ↔ (k, v) ∈ l := by
  have hpair : l.Pairwise fun a b => ¬ compare a.1 b.1 = .eq := by
    simpa only [compare_eq_iff_eq] using List.pairwise_map.mp h
  refine ⟨fun hv => ?_, fun hm => Std.ExtTreeMap.getElem?_ofList_of_mem Std.ReflCmp.compare_self hpair hm⟩
  have hmem := mem_of_get? hv
  rw [Std.ExtTreeMap.mem_ofList, List.contains_iff_mem, List.mem_map] at hmem
  obtain ⟨⟨k', w⟩, hm, rfl⟩ := hmem
  rw [Std.ExtTreeMap.getElem?_ofList_of_mem Std.ReflCmp.compare_self hpair hm] at hv
  cases hv
  exact hm

theorem erase_insert_of_ne (h : a ≠ k) : (m.insert a v).erase k = (m.erase k).insert a v := by
  refine Std.ExtTreeMap.ext_getElem? fun {i} => ?_
  rw [get?_erase, get?_insert, get?_insert, get?_erase]
  by_cases hi : i = k
  · rw [if_pos hi, if_pos hi, if_neg fun he => h (he.symm.trans hi)]
  · rw [if_neg hi, if_neg hi]

end IntMap
