import Dakota.Lib.Numerals
import Mathlib

/-!
# Multimaps

A `std::multimap` as the list of its entries in the order of iteration: sorted by key, entries of
equal keys in the order of insertion. An iterator is a position of the list.

* `insert`, `lowerBound`, `upperBound`: the operations. `lowerBound_eq_countP` and
  `upperBound_eq_countP` count the smaller keys, `slice_equalRange` is what is between the two.
* `ofList`: all entries inserted one by one, a stable sort (`perm_ofList`, `sorted_ofList`,
  `filter_ofList`).
* `insertBounded`: insertion that keeps at most `num` entries. `foldl_insertBounded`: a run of it
  leaves the first `num` entries of that sort.
* `Smallest`: what the first entries are, in terms of the list; `smallest_take`, and
  `Smallest.key_le`, `Smallest.key_lt` for a list of two.
-/

namespace Dakota

variable {α β : Type} [LinearOrder α]

abbrev MultiMap (α β : Type) := List (α × β)

namespace MultiMap

variable {m m' : MultiMap α β} {k key : α} {v : β} {p q : α × β} {n : Nat}

/-- `insert(make_pair(k, v))`: after the entries with the same key -/
def insert (k : α) (v : β) : MultiMap α β → MultiMap α β
  | [] => [(k, v)]
  | p :: m => if k < p.1 then (k, v) :: p :: m else p :: insert k v m

/-- The first entry whose key is not less than `k`. -/
def lowerBound (m : MultiMap α β) (k : α) : Nat := m.findIdx fun p => ¬ p.1 < k

/-- The first entry whose key is greater than `k`. -/
def upperBound (m : MultiMap α β) (k : α) : Nat := m.findIdx fun p => k < p.1

/-- The entries of a list, inserted one by one. -/
def ofList (l : List (α × β)) : MultiMap α β := l.foldl (fun m p => insert p.1 p.2 m) []

/-- The keys are in order. -/
def Sorted (m : MultiMap α β) : Prop := m.Pairwise fun p q => p.1 ≤ q.1

/-! ## Insertion -/

theorem perm_insert : (insert k v m).Perm ((k, v) :: m) := by
  induction m with
  | nil => exact List.Perm.refl _
  | cons p m ih =>
    unfold insert
    split_ifs with h
    · exact List.Perm.refl _
    · exact (ih.cons p).trans (List.Perm.swap _ _ _)

theorem mem_insert : q ∈ insert k v m ↔ q = (k, v) ∨ q ∈ m := by
  rw [perm_insert.mem_iff, List.mem_cons]

theorem length_insert : (insert k v m).length = m.length + 1 :=
  perm_insert.length_eq

theorem Sorted.insert (h : Sorted m) : Sorted (insert k v m) := by
  induction m with
  | nil => exact List.pairwise_singleton _ _
  | cons p m ih =>
    obtain ⟨hp, hm⟩ := List.pairwise_cons.mp h
    unfold MultiMap.insert
    split_ifs with hk
    · refine List.pairwise_cons.mpr ⟨fun q hq => ?_, h⟩
      rcases List.mem_cons.mp hq with rfl | hq
      · exact hk.le
      · exact hk.le.trans (hp q hq)
    · refine List.pairwise_cons.mpr ⟨fun q hq => ?_, ih hm⟩
      rcases mem_insert.mp hq with rfl | hq
      · exact not_lt.mp hk
      · exact hp q hq

/-- Of the entries with one key, a new one becomes the last. -/
theorem filter_insert (h : Sorted m) :
    (insert k v m).filter (·.1 = key) =
      m.filter (·.1 = key) ++ if k = key then [(k, v)] else [] := by
  induction m with
  | nil => by_cases hk : k = key <;> simp [insert, hk]
  | cons p m ih =>
    obtain ⟨hp, hm⟩ := List.pairwise_cons.mp h
    unfold insert
    split_ifs with hlt hk hk
    · subst hk
      have hnone : (p :: m).filter (fun q => q.1 = k) = [] := by
        refine List.filter_eq_nil_iff.mpr fun q hq => ?_
        have hle : p.1 ≤ q.1 := by
          rcases List.mem_cons.mp hq with rfl | hq
          · exact le_rfl
          · exact hp q hq
        simpa using (hlt.trans_le hle).ne'
      rw [List.filter_cons_of_pos (by simp), hnone, List.nil_append]
    · rw [List.filter_cons_of_neg (by simpa using hk), List.append_nil]
    · rw [List.filter_cons, List.filter_cons, ih hm, if_pos hk]
      split_ifs <;> rfl
    · rw [List.filter_cons, List.filter_cons, ih hm, if_neg hk]
      split_ifs <;> rfl

/-! ## The range of a key -/

theorem lowerBound_eq_countP (h : Sorted m) : lowerBound m k = m.countP (·.1 < k) := by
  unfold lowerBound
  induction m with
  | nil => rfl
  | cons p m ih =>
    obtain ⟨hp, hm⟩ := List.pairwise_cons.mp h
    rw [List.findIdx_cons, List.countP_cons]
    by_cases hk : p.1 < k
    · simpa [hk] using ih hm
    · have hnone : m.countP (·.1 < k) = 0 := by
        refine List.countP_eq_zero.mpr fun q hq => ?_
        simpa using (not_lt.mp hk).trans (hp q hq)
      simp [hk, hnone]

theorem upperBound_eq_countP (h : Sorted m) : upperBound m k = m.countP (·.1 ≤ k) := by
  unfold upperBound
  induction m with
  | nil => rfl
  | cons p m ih =>
    obtain ⟨hp, hm⟩ := List.pairwise_cons.mp h
    rw [List.findIdx_cons, List.countP_cons]
    by_cases hk : k < p.1
    · have hnone : m.countP (·.1 ≤ k) = 0 := by
        refine List.countP_eq_zero.mpr fun q hq => ?_
        simpa using hk.trans_le (hp q hq)
      simp [hk, hnone]
    · simpa [hk, not_lt.mp hk] using ih hm

theorem countP_le_eq_add :
    m.countP (·.1 ≤ k) = m.countP (·.1 < k) + m.countP (·.1 = k) := by
  induction m with
  | nil => rfl
  | cons p m ih =>
    rw [List.countP_cons, List.countP_cons, List.countP_cons, ih]
    rcases lt_trichotomy p.1 k with h | h | h
    · simp [h, h.le, h.ne, Nat.add_right_comm]
    · simp [h, Nat.add_assoc]
    · simp [h.not_ge, h.not_gt, h.ne']

/-- What `equal_range` delimits. -/
theorem slice_equalRange (h : Sorted m) :
    (m.drop (lowerBound m k)).take (upperBound m k - lowerBound m k) = m.filter (·.1 = k) := by
  rw [lowerBound_eq_countP h, upperBound_eq_countP h, countP_le_eq_add, Nat.add_sub_cancel_left]
  induction m with
  | nil => rfl
  | cons p m ih =>
    obtain ⟨hp, hm⟩ := List.pairwise_cons.mp h
    rcases lt_trichotomy p.1 k with hk | hk | hk
    · simpa [hk, hk.ne, List.filter_cons] using ih hm
    · have hless : m.countP (·.1 < k) = 0 := by
        refine List.countP_eq_zero.mpr fun q hq => ?_
        simpa [← hk] using hp q hq
      have hrest := ih hm
      rw [hless, List.drop_zero] at hrest
      simp [hk, hless, hrest]
    · have hless : m.countP (·.1 < k) = 0 := by
        refine List.countP_eq_zero.mpr fun q hq => ?_
        simpa using hk.le.trans (hp q hq)
      have hrest := ih hm
      rw [hless, List.drop_zero] at hrest
      have heq : m.countP (·.1 = k) = 0 := by
        refine List.countP_eq_zero.mpr fun q hq => ?_
        simpa using (hk.trans_le (hp q hq)).ne'
      rw [heq, List.take_zero] at hrest
      simp [hk.ne', hk.not_gt, hless, heq, ← hrest]

/-! ## A multimap from a list -/

theorem ofList_append {l : List (α × β)} :
    ofList (l ++ [p]) = insert p.1 p.2 (ofList l) := by
  rw [ofList, List.foldl_append]
  rfl

theorem perm_ofList (l : List (α × β)) : (ofList l).Perm l := by
  induction l using List.reverseRecOn with
  | nil => exact List.Perm.refl _
  | append_singleton l p ih =>
    rw [ofList_append]
    exact perm_insert.trans ((ih.cons p).trans (List.perm_append_singleton p l).symm)

theorem sorted_ofList (l : List (α × β)) : Sorted (ofList l) := by
  induction l using List.reverseRecOn with
  | nil => exact List.Pairwise.nil
  | append_singleton l p ih =>
    rw [ofList_append]
    exact ih.insert

/-- Entries of equal keys keep their order. -/
theorem filter_ofList (l : List (α × β)) :
    (ofList l).filter (·.1 = key) = l.filter (·.1 = key) := by
  induction l using List.reverseRecOn with
  | nil => rfl
  | append_singleton l p ih =>
    rw [ofList_append, filter_insert (sorted_ofList l), ih, List.filter_append]
    by_cases hp : p.1 = key
    · subst hp
      simp
    · simp [hp]

/-! ## A bounded multimap -/

/-- Insertion into a multimap of at most `num` entries: a full one is only changed by a key less
than its last one, whose entry goes. -/
def insertBounded (num : Nat) (k : α) (v : β) (m : MultiMap α β) : MultiMap α β :=
  if m.length < num then insert k v m
  else
    match m.getLast? with
    | none => m
    | some last => if k < last.1 then insert k v m.dropLast else m

theorem take_succ_insert {num : Nat} (h : Sorted m) (hnum : num < m.length) :
    (insert k v m).take (num + 1) =
      if k < m[num].1 then insert k v (m.take num) else m.take (num + 1) := by
  induction m generalizing num with
  | nil => exact absurd hnum (Nat.not_lt_zero _)
  | cons p m ih =>
    obtain ⟨hp, hm⟩ := List.pairwise_cons.mp h
    cases num with
    | zero => by_cases hk : k < p.1 <;> simp [insert, hk]
    | succ num =>
      have hlt : num < m.length := Nat.lt_of_succ_lt_succ hnum
      have hle : p.1 ≤ m[num].1 := hp _ (List.getElem_mem hlt)
      rw [List.getElem_cons_succ, List.take_succ_cons]
      by_cases hk : k < p.1
      · rw [if_pos (hk.trans_le hle), insert, if_pos hk, insert, if_pos hk, List.take_succ_cons,
          List.take_succ_cons]
      · rw [insert, if_neg hk, List.take_succ_cons, ih hm hlt, insert, if_neg hk]
        split_ifs <;> rfl

/-- On the first entries of a multimap, bounded insertion is insertion into the whole. -/
theorem insertBounded_take {num : Nat} (h : Sorted m) (hpos : 0 < num) :
    insertBounded num k v (m.take num) = (insert k v m).take num := by
  obtain ⟨num, rfl⟩ : ∃ n, num = n + 1 := Nat.exists_eq_succ_of_ne_zero hpos.ne'
  unfold insertBounded
  rcases Nat.lt_or_ge num m.length with hnum | hnum
  · have hlen : (m.take (num + 1)).length = num + 1 := by
      rw [List.length_take]
      omega
    have hlast : (m.take (num + 1)).getLast? = some m[num] := by
      rw [List.getLast?_eq_getElem?, hlen, Nat.add_sub_cancel, List.getElem?_take_of_lt (by omega),
        List.getElem?_eq_getElem hnum]
    have hdrop : (m.take (num + 1)).dropLast = m.take num := by
      rw [List.dropLast_eq_take, hlen, List.take_take, Nat.add_sub_cancel]
      congr 1
      omega
    rw [if_neg (by omega), hlast, hdrop, take_succ_insert h hnum]
  · rw [if_pos (by rw [List.length_take]; omega), List.take_of_length_le (by omega),
      List.take_of_length_le (by rw [length_insert]; omega)]

/-- A run of insertions that keep `num` entries leaves the first `num` of all. -/
theorem foldl_insertBounded {num : Nat} (hpos : 0 < num) (l : List (α × β)) :
    l.foldl (fun m p => insertBounded num p.1 p.2 m) [] = (ofList l).take num := by
  induction l using List.reverseRecOn with
  | nil => exact List.take_nil.symm
  | append_singleton l p ih =>
    rw [List.foldl_append, ih, ofList_append]
    exact insertBounded_take (sorted_ofList l) hpos

/-! ## The smallest elements of a list -/

/-- `best` are `num` smallest elements of `l`, or all of them: smallest first, and of those with one
key the earliest. -/
structure Smallest (num : Nat) (key : β → α) (l best : List β) : Prop where
  length : best.length = min num l.length
  smallest : ∃ rest, (best ++ rest).Perm l ∧ ∀ p ∈ best, ∀ q ∈ rest, key p ≤ key q
  sorted : best.Pairwise fun p q => key p ≤ key q
  earliest : ∀ k, best.filter (key · = k) <+: l.filter (key · = k)

/-- The first entries of the sorted list. -/
theorem smallest_take (num : Nat) (key : β → α) (l : List β) :
    Smallest num key l (((ofList (l.map fun b => (key b, b))).take num).map (·.2)) := by
  have hperm : ((ofList (l.map fun b => (key b, b))).map (·.2)).Perm l := by
    have h := (perm_ofList (l.map fun b => (key b, b))).map (·.2)
    rw [List.map_map] at h
    exact h.trans (List.Perm.of_eq (List.map_id l))
  have hsorted := sorted_ofList (l.map fun b => (key b, b))
  have hkey : ∀ p ∈ ofList (l.map fun b => (key b, b)), p.1 = key p.2 := fun p hp => by
    obtain ⟨b, -, rfl⟩ := List.mem_map.mp ((perm_ofList _).mem_iff.mp hp)
    rfl
  have hties (k : α) : ((ofList (l.map fun b => (key b, b))).map (·.2)).filter (key · = k) =
      l.filter (key · = k) := by
    have hof : (ofList (l.map fun b => (key b, b))).filter (·.1 = k) =
        (l.map fun b => (key b, b)).filter (·.1 = k) := filter_ofList _
    have h := congrArg (List.map (·.2)) hof
    rw [List.filter_map, List.map_map] at h
    have hsame : (ofList (l.map fun b => (key b, b))).filter ((key · = k) ∘ (·.2)) =
        (ofList (l.map fun b => (key b, b))).filter (·.1 = k) :=
      List.filter_congr fun p hp => by simp only [Function.comp_apply, hkey p hp]
    rw [List.filter_map, hsame]
    exact h.trans (List.map_id _)
  generalize ofList (l.map fun b => (key b, b)) = m at hperm hsorted hkey hties
  have hlen : m.length = l.length := by rw [← hperm.length_eq, List.length_map]
  have hsplit : (m.take num).map (·.2) ++ (m.drop num).map (·.2) = m.map (·.2) := by
    rw [← List.map_append, List.take_append_drop]
  refine ⟨?_, ⟨(m.drop num).map (·.2), by rwa [hsplit], ?_⟩, ?_, fun k => ?_⟩
  · rw [List.length_map, List.length_take, hlen]
  · intro p hp q hq
    obtain ⟨p', hp', rfl⟩ := List.mem_map.mp hp
    obtain ⟨q', hq', rfl⟩ := List.mem_map.mp hq
    rw [← hkey p' (List.mem_of_mem_take hp'), ← hkey q' (List.mem_of_mem_drop hq')]
    rw [← List.take_append_drop num m] at hsorted
    exact (List.pairwise_append.mp hsorted).2.2 p' hp' q' hq'
  · refine List.pairwise_map.mpr ((hsorted.sublist (List.take_sublist num m)).imp_of_mem ?_)
    intro p q hp hq h
    rwa [← hkey p (List.mem_of_mem_take hp), ← hkey q (List.mem_of_mem_take hq)]
  · rw [← hties k, ← hsplit, List.filter_append]
    exact List.prefix_append _ _

section

variable {key : β → α} {num : Nat} {a b : β} {l best : List β}

/-- Only the order of the keys counts. -/
theorem Smallest.congr {γ : Type} [LinearOrder γ] {key' : β → γ}
    (hkey : ∀ a b, key a ≤ key b ↔ key' a ≤ key' b) (h : Smallest num key l best) :
    Smallest num key' l best := by
  have heq (a b : β) : key a = key b ↔ key' a = key' b := by
    rw [le_antisymm_iff, le_antisymm_iff, hkey, hkey]
  obtain ⟨rest, hperm, hle⟩ := h.smallest
  refine ⟨h.length, ⟨rest, hperm, fun p hp q hq => (hkey p q).mp (hle p hp q hq)⟩,
    h.sorted.imp (hkey _ _).mp, fun k => ?_⟩
  by_cases hk : ∃ a, key' a = k
  · obtain ⟨a, rfl⟩ := hk
    simpa only [heq] using h.earliest (key a)
  · push Not at hk
    rw [List.filter_eq_nil_iff.mpr fun a _ => by simpa using hk a]
    exact List.nil_prefix


/-- Of two elements, the first of the smallest is not greater than the other one. -/
theorem Smallest.key_le (h : Smallest num key [a, b] (a :: best)) : key a ≤ key b := by
  obtain ⟨rest, hperm, hle⟩ := h.smallest
  have hmem : b ∈ best ++ rest := by
    have hrest : (best ++ rest).Perm [b] := (List.perm_cons a).mp hperm
    exact hrest.mem_iff.mpr (List.mem_singleton_self b)
  rcases List.mem_append.mp hmem with hb | hb
  · exact (List.pairwise_cons.mp h.sorted).1 b hb
  · exact hle a List.mem_cons_self b hb

/-- If the later one of two elements comes first, it is smaller. -/
theorem Smallest.key_lt (h : Smallest num key [a, b] (b :: best)) (hne : a ≠ b) :
    key b < key a := by
  obtain ⟨rest, hperm, hle⟩ := h.smallest
  have hmem : a ∈ best ++ rest := by
    have hrest : (best ++ rest).Perm [a] :=
      (List.perm_cons b).mp (hperm.trans (List.Perm.swap b a []))
    exact hrest.mem_iff.mpr (List.mem_singleton_self a)
  have hba : key b ≤ key a := by
    rcases List.mem_append.mp hmem with ha | ha
    · exact (List.pairwise_cons.mp h.sorted).1 a ha
    · exact hle b List.mem_cons_self a ha
  refine lt_of_le_of_ne hba fun heq => hne ?_
  have hpre := h.earliest (key a)
  rw [List.filter_cons_of_pos (by simpa using heq), List.filter_cons_of_pos (by simp)] at hpre
  exact ((List.cons_prefix_cons.mp hpre).1).symm

end

end MultiMap

end Dakota
