import Dakota.Lib.Numerals
import Mathlib

/-!
# Positions of the elements that satisfy a predicate

More about `List.findIdxs`: of a repeated element, and of a predicate among the elements that satisfy
a weaker one.

* `findIdxs_filter`: the positions in the whole list are those in the filtered list, looked up among
  the positions of the filter.
* `existsUnique_getElem`: classes of a list without repetitions number its positions together.
-/

namespace List

variable {α : Type*} {p q : α → Bool} {l : List α} {s : Nat}

theorem findIdxs_replicate (n : Nat) (a : α) :
    (replicate n a).findIdxs p s = if p a then range' s n else [] := by
  induction n generalizing s with
  | zero => simp
  | succ n ih =>
    rw [replicate_succ, findIdxs_cons, ih]
    split <;> rfl

theorem findIdxs_congr (h : ∀ a ∈ l, p a = q a) : l.findIdxs p s = l.findIdxs q s := by
  induction l generalizing s with
  | nil => rfl
  | cons a l ih =>
    rw [findIdxs_cons, findIdxs_cons, h a mem_cons_self, ih fun b hb => h b (mem_cons_of_mem a hb)]

/-- Positions with `p` are positions among those with `q`, if `p` implies `q`. -/
theorem findIdxs_filter (hpq : ∀ a, p a → q a) :
    ((l.filter q).findIdxs p).map (fun j => (l.findIdxs q s)[j]?) =
      (l.findIdxs p s).map some := by
  induction l generalizing s with
  | nil => rfl
  | cons a l ih =>
    cases hq : q a with
    | false =>
      have hp : p a = false := by
        by_contra h
        rw [hpq a (Bool.not_eq_false _ ▸ h)] at hq
        cases hq
      rw [filter_cons_of_neg (by simp [hq]), findIdxs_cons, findIdxs_cons]
      simp [hq, hp, ih]
    | true =>
      have hrest : ((l.filter q).findIdxs p 1).map (fun j => (s :: l.findIdxs q (s + 1))[j]?) =
          (l.findIdxs p (s + 1)).map some := by
        have hstart : (l.filter q).findIdxs p 1 = ((l.filter q).findIdxs p).map (· + 1) :=
          findIdxs_start
        rw [hstart, map_map, ← ih]
        rfl
      rw [filter_cons_of_pos hq, findIdxs_cons, findIdxs_cons, findIdxs_cons]
      simp only [hq, if_true]
      split
      · rw [map_cons, map_cons, hrest]
        rfl
      · exact hrest

/-- The same by index. -/
theorem getElem?_findIdxs_filter (hpq : ∀ a, p a → q a) (i : Nat) :
    (((l.filter q).findIdxs p)[i]?).bind (fun j => (l.findIdxs q s)[j]?) =
      (l.findIdxs p s)[i]? := by
  have h := congrArg (·[i]?) (findIdxs_filter (l := l) (s := s) hpq)
  simp only [getElem?_map] at h
  cases hi : ((l.filter q).findIdxs p)[i]? with
  | none =>
    rw [hi] at h
    cases ht : (l.findIdxs p s)[i]? with
    | none => rfl
    | some t =>
      rw [ht] at h
      cases h
  | some j =>
    rw [hi] at h
    cases ht : (l.findIdxs p s)[i]? with
    | none =>
      rw [ht] at h
      cases h
    | some t =>
      rw [ht] at h
      exact Option.some.inj h

/-- An element at a position of a class has the class. -/
theorem getElem?_findIdxs_eq_some {i t : Nat} (h : (l.findIdxs p)[i]? = some t) :
    ∃ a, l[t]? = some a ∧ p a := by
  have hmem := mem_of_getElem? h
  rw [mem_findIdxs_iff_exists_getElem_pos] at hmem
  obtain ⟨ht, hp⟩ := hmem
  exact ⟨l[t], getElem?_eq_getElem ht, hp⟩

/-- If each element has exactly one of the classes `c`, then each position is numbered once. -/
theorem existsUnique_getElem {ι : Type*} (c : ι → α → Bool) (hc : ∀ a, ∃! k, c k a) {t : Nat}
    (ht : t < l.length) : ∃! x : ι × Nat, (l.findIdxs (c x.1))[x.2]? = some t := by
  obtain ⟨k, hk, huniq⟩ := hc l[t]
  have hmem : t ∈ l.findIdxs (c k) := mem_findIdxs_iff_exists_getElem_pos.mpr ⟨ht, hk⟩
  obtain ⟨i, hi⟩ := mem_iff_getElem?.mp hmem
  refine ⟨(k, i), hi, ?_⟩
  rintro ⟨k', i'⟩ h
  obtain ⟨a, ha, hca⟩ := getElem?_findIdxs_eq_some h
  rw [getElem?_eq_getElem ht] at ha
  cases ha
  obtain rfl := huniq k' hca
  obtain ⟨hi₁, hi₂⟩ := getElem?_eq_some_iff.mp hi
  obtain ⟨hi₃, hi₄⟩ := getElem?_eq_some_iff.mp h
  exact Prod.ext rfl ((nodup_findIdxs.getElem_inj_iff).mp (hi₄.trans hi₂.symm))

/-- A search for an element. -/
theorem idxOf?_eq_some {β : Type*} [DecidableEq β] {l : List β} {a : β} {i : Nat} :
    l.idxOf? a = some i ↔ a ∈ l ∧ l.idxOf a = i := by
  rw [idxOf_eq_getD_idxOf?]
  constructor
  · intro h
    refine ⟨?_, by rw [h]; rfl⟩
    rw [← isSome_idxOf?, h]
    rfl
  · rintro ⟨hmem, h⟩
    obtain ⟨j, hj⟩ := Option.isSome_iff_exists.mp (isSome_idxOf?.mpr hmem)
    rw [hj] at h ⊢
    exact congrArg some h

/-- Behind the first of them there is room for the elements that are equal. -/
theorem idxOf_add_count_le {β : Type*} [DecidableEq β] {l : List β} {a : β} (h : a ∈ l) :
    l.idxOf a + l.count a ≤ l.length := by
  induction l with
  | nil => cases h
  | cons b l ih =>
    by_cases hb : b = a
    · subst hb
      have hle : l.count b ≤ l.length := count_le_length
      rw [idxOf_cons_self, count_cons_self, length_cons]
      omega
    · have hmem : a ∈ l := (mem_cons.mp h).resolve_left fun hab => hb hab.symm
      have hle := ih hmem
      rw [idxOf_cons_ne l hb, count_cons_of_ne hb, length_cons]
      omega

/-- Two increasing lists are equal if one has the elements of the other and is no longer. -/
theorem eq_of_pairwise_lt {l l' : List Nat} (hl : l.Pairwise (· < ·)) (hl' : l'.Pairwise (· < ·))
    (hsub : ∀ a ∈ l, a ∈ l') (hlen : l'.length ≤ l.length) : l = l' := by
  have hnodup : l.Nodup := hl.imp fun h => Nat.ne_of_lt h
  have hperm : l.Perm l' :=
    (subperm_of_subset hnodup fun a ha => hsub a ha).perm_of_length_le hlen
  exact hperm.eq_of_pairwise (fun a b _ _ hab hba => absurd hab (Nat.lt_asymm hba)) hl hl'

end List
