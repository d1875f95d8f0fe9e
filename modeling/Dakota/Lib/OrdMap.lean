import Dakota.Lib.Numerals
import Mathlib

/-!
# Maps with iterators

A `std::map` as the list of its entries in the order of the keys. An iterator is a position of the
list, `end()` its length.

* `assign`, `insertNew`, `find`, `insertRange`, `eraseKey`: the operations; `modify` assigns through
  an iterator.
* A key greater than all keys goes to the end: `assign_append`, `insertRange_append`.
* `lookup_eq_some_iff`: the entries of a map in order; `lookup_foldl_assign`: the last entry that is
  assigned under a key stays.
-/

namespace Dakota

variable {κ α : Type} [LinearOrder κ]

abbrev OrdMap (κ α : Type) := List (κ × α)

namespace OrdMap

variable {m m' : OrdMap κ α} {k : κ} {v w : α} {p : κ × α} {f : α → α}

/-- `m[k] = v` -/
def assign (k : κ) (v : α) : OrdMap κ α → OrdMap κ α
  | [] => [(k, v)]
  | p :: m =>
    if k < p.1 then (k, v) :: p :: m else if p.1 < k then p :: assign k v m else (k, v) :: m

/-- `m.insert(make_pair(k, v))`: no change if the key is there. -/
def insertNew (k : κ) (v : α) : OrdMap κ α → OrdMap κ α
  | [] => [(k, v)]
  | p :: m =>
    if k < p.1 then (k, v) :: p :: m else if p.1 < k then p :: insertNew k v m else p :: m

/-- The position of a key, or the end. -/
def find (m : OrdMap κ α) (k : κ) : Nat := m.findIdx fun p => p.1 = k

/-- `m[k]`, if the key is there. -/
def lookup (m : OrdMap κ α) (k : κ) : Option α := (m.find? fun p => p.1 = k).map (·.2)

/-- `m.insert(first, last)` -/
def insertRange (m : OrdMap κ α) (range : List (κ × α)) : OrdMap κ α :=
  range.foldl (fun m p => m.insertNew p.1 p.2) m

/-- An assignment to the value of a key that is there. -/
def modify (k : κ) (f : α → α) (m : OrdMap κ α) : OrdMap κ α :=
  m.map fun p => if p.1 = k then (p.1, f p.2) else p

/-- `m.erase(k)` -/
def eraseKey (k : κ) (m : OrdMap κ α) : OrdMap κ α := m.filter fun p => p.1 ≠ k

/-- All keys are less than `k`. -/
def Below (m : OrdMap κ α) (k : κ) : Prop := ∀ p ∈ m, p.1 < k

theorem below_nil : Below ([] : OrdMap κ α) k := nofun

theorem Below.append (h : m.Below k) (h' : m'.Below k) : (m ++ m').Below k := fun p hp =>
  (List.mem_append.mp hp).elim (h p) (h' p)

theorem Below.of_append (h : (m ++ m').Below k) : m.Below k := fun p hp =>
  h p (List.mem_append_left _ hp)

theorem Below.concat {j : κ} (h : m.Below k) (hj : j < k) : (m ++ [(j, v)]).Below k :=
  h.append fun p hp => by rwa [List.mem_singleton.mp hp]

theorem assign_append (h : m.Below k) : m.assign k v = m ++ [(k, v)] := by
  induction m with
  | nil => rfl
  | cons p m ih =>
    have hp : p.1 < k := h p List.mem_cons_self
    rw [assign, if_neg hp.not_gt, if_pos hp, ih fun q hq => h q (List.mem_cons_of_mem p hq)]
    rfl

theorem insertNew_append (h : m.Below k) : m.insertNew k v = m ++ [(k, v)] := by
  induction m with
  | nil => rfl
  | cons p m ih =>
    have hp : p.1 < k := h p List.mem_cons_self
    rw [insertNew, if_neg hp.not_gt, if_pos hp, ih fun q hq => h q (List.mem_cons_of_mem p hq)]
    rfl

/-- A range of entries that are in order, inserted behind a map. -/
theorem insertRange_append {range : List (κ × α)}
    (h : (m ++ range).Pairwise fun p q => p.1 < q.1) : m.insertRange range = m ++ range := by
  induction range generalizing m with
  | nil => exact (List.append_nil m).symm
  | cons p range ih =>
    have hbelow : m.Below p.1 := fun q hq =>
      (List.pairwise_append.mp h).2.2 q hq p List.mem_cons_self
    have hsplit : m ++ p :: range = (m ++ [p]) ++ range := by rw [List.append_assoc]; rfl
    rw [hsplit] at h ⊢
    rw [insertRange, List.foldl_cons, insertNew_append hbelow]
    exact ih h

/-- Entries assigned in order. -/
theorem foldl_assign {entries : List (κ × α)}
    (h : (m ++ entries).Pairwise fun p q => p.1 < q.1) :
    entries.foldl (fun m p => m.assign p.1 p.2) m = m ++ entries := by
  induction entries generalizing m with
  | nil => exact (List.append_nil m).symm
  | cons p entries ih =>
    have hbelow : m.Below p.1 := fun q hq =>
      (List.pairwise_append.mp h).2.2 q hq p List.mem_cons_self
    have hsplit : m ++ p :: entries = (m ++ [p]) ++ entries := by rw [List.append_assoc]; rfl
    rw [hsplit] at h ⊢
    rw [List.foldl_cons, assign_append hbelow]
    exact ih h

theorem find_append (h : m.Below k) : (m ++ (k, v) :: m').find k = m.length := by
  unfold find
  induction m with
  | nil => simp [List.findIdx_cons]
  | cons p m ih =>
    have hp : p.1 ≠ k := (h p List.mem_cons_self).ne
    rw [List.cons_append, List.findIdx_cons, decide_eq_false hp, cond_false,
      ih fun q hq => h q (List.mem_cons_of_mem p hq)]
    rfl

theorem lookup_of_below (h : m.Below k) : m.lookup k = none := by
  rw [lookup, List.find?_eq_none.mpr fun p hp => by simpa using (h p hp).ne]
  rfl

theorem modify_append (h : m.Below k) : (m ++ [(k, v)]).modify k f = m ++ [(k, f v)] := by
  rw [modify, List.map_append]
  congr 1
  · refine (List.map_congr_left fun p hp => ?_).trans (List.map_id m)
    exact if_neg (h p hp).ne
  · simp

theorem lookup_append (h : m.Below k) : (m ++ (k, v) :: m').lookup k = some v := by
  have hnone : m.find? (fun p => p.1 = k) = none :=
    List.find?_eq_none.mpr fun p hp => by simpa using (h p hp).ne
  rw [lookup, List.find?_append, hnone, Option.none_or, List.find?_cons_of_pos (by simp)]
  rfl

theorem eraseKey_append (h : m.Below k) (h' : ∀ p ∈ m', k < p.1) :
    (m ++ (k, v) :: m').eraseKey k = m ++ m' := by
  have hm : m.filter (fun p => p.1 ≠ k) = m :=
    List.filter_eq_self.mpr fun p hp => decide_eq_true (h p hp).ne
  have hm' : m'.filter (fun p => p.1 ≠ k) = m' :=
    List.filter_eq_self.mpr fun p hp => decide_eq_true (h' p hp).ne'
  rw [eraseKey, List.filter_append, List.filter_cons_of_neg (by simp), hm, hm']

/-- The entry of `t` in a map that is made of a list of entries. -/
theorem eraseKey_map {ι : Type} {key : ι → κ} {value : ι → α} {l l' : List ι} {t : ι}
    (h : (l ++ t :: l').Pairwise fun t t' => key t < key t') :
    eraseKey (key t) ((l ++ t :: l').map fun t => (key t, value t)) =
      (l ++ l').map fun t => (key t, value t) := by
  obtain ⟨-, hafter, hbefore⟩ := List.pairwise_append.mp h
  rw [List.map_append, List.map_cons, List.map_append]
  refine eraseKey_append (fun p hp => ?_) fun p hp => ?_
  · obtain ⟨t', ht', rfl⟩ := List.mem_map.mp hp
    exact hbefore t' ht' t List.mem_cons_self
  · obtain ⟨t', ht', rfl⟩ := List.mem_map.mp hp
    exact (List.pairwise_cons.mp hafter).1 t' ht'

theorem lookup_map {ι : Type} {key : ι → κ} {value : ι → α} {l l' : List ι} {t : ι}
    (h : (l ++ t :: l').Pairwise fun t t' => key t < key t') :
    lookup ((l ++ t :: l').map fun t => (key t, value t)) (key t) = some (value t) := by
  rw [List.map_append, List.map_cons]
  refine lookup_append fun p hp => ?_
  obtain ⟨t', ht', rfl⟩ := List.mem_map.mp hp
  exact (List.pairwise_append.mp h).2.2 t' ht' t List.mem_cons_self

/-! ## Order and lookups -/

/-- The order of the keys. -/
def Ordered (m : OrdMap κ α) : Prop := m.Pairwise fun p q => p.1 < q.1

theorem ordered_nil : Ordered ([] : OrdMap κ α) := List.Pairwise.nil

theorem Ordered.assign (h : m.Ordered) : (m.assign k v).Ordered := by
  -- the keys afterwards are the old ones and `k`
  have hkeys : ∀ m : OrdMap κ α, ∀ p ∈ m.assign k v, p.1 = k ∨ p ∈ m := by
    intro m
    induction m with
    | nil => exact fun p hp => .inl (by rw [List.mem_singleton.mp hp])
    | cons q m ih =>
      intro p hp
      rw [OrdMap.assign] at hp
      split_ifs at hp with h₁ h₂
      · rcases List.mem_cons.mp hp with rfl | hp
        · exact .inl rfl
        · exact .inr hp
      · rcases List.mem_cons.mp hp with rfl | hp
        · exact .inr List.mem_cons_self
        · exact (ih p hp).imp_right (List.mem_cons_of_mem q)
      · rcases List.mem_cons.mp hp with rfl | hp
        · exact .inl rfl
        · exact .inr (List.mem_cons_of_mem q hp)
  induction m with
  | nil => exact List.pairwise_singleton _ _
  | cons q m ih =>
    obtain ⟨hq, hm⟩ := List.pairwise_cons.mp h
    rw [OrdMap.assign]
    split_ifs with h₁ h₂
    · refine List.pairwise_cons.mpr ⟨fun p hp => ?_, h⟩
      rcases List.mem_cons.mp hp with rfl | hp
      · exact h₁
      · exact h₁.trans (hq p hp)
    · refine List.pairwise_cons.mpr ⟨fun p hp => ?_, ih hm⟩
      rcases hkeys m p hp with heq | hp
      · exact heq ▸ h₂
      · exact hq p hp
    · have heq : q.1 = k := le_antisymm (not_lt.mp h₁) (not_lt.mp h₂)
      exact List.pairwise_cons.mpr ⟨fun p hp => heq ▸ hq p hp, hm⟩

theorem Ordered.foldl_assign (h : m.Ordered) (entries : List (κ × α)) :
    (entries.foldl (fun m p => m.assign p.1 p.2) m).Ordered := by
  induction entries generalizing m with
  | nil => exact h
  | cons p entries ih => exact ih h.assign

theorem lookup_cons {p : κ × α} {j : κ} :
    lookup (p :: m) j = if p.1 = j then some p.2 else m.lookup j := by
  rw [lookup, List.find?_cons]
  split_ifs with h
  · rw [decide_eq_true h]
    rfl
  · rw [decide_eq_false h]
    rfl

theorem lookup_assign {j : κ} : (m.assign k v).lookup j = if j = k then some v else m.lookup j := by
  induction m with
  | nil =>
    rw [assign, lookup_cons]
    exact if_congr eq_comm rfl rfl
  | cons q m ih =>
    rw [assign]
    by_cases h₁ : k < q.1
    · rw [if_pos h₁, lookup_cons]
      exact if_congr eq_comm rfl rfl
    by_cases h₂ : q.1 < k
    · rw [if_neg h₁, if_pos h₂, lookup_cons, lookup_cons, ih]
      by_cases hjk : j = k
      · rw [if_neg fun h => h₂.ne (h.trans hjk), if_pos hjk, if_pos hjk]
      · rw [if_neg hjk, if_neg hjk]
    · have heq : q.1 = k := le_antisymm (not_lt.mp h₁) (not_lt.mp h₂)
      rw [if_neg h₁, if_neg h₂, lookup_cons, lookup_cons, heq]
      by_cases hjk : j = k
      · rw [if_pos hjk.symm, if_pos hjk]
      · rw [if_neg (Ne.symm hjk), if_neg hjk, if_neg (Ne.symm hjk)]

/-- What a key has after several assignments. -/
theorem lookup_foldl_assign {entries : List (κ × α)} :
    (entries.foldl (fun m p => m.assign p.1 p.2) m).lookup k =
      ((entries.reverse.find? fun p => p.1 = k).map (·.2)).or (m.lookup k) := by
  induction entries using List.reverseRecOn with
  | nil => rfl
  | append_singleton entries p ih =>
    rw [List.foldl_append, List.reverse_append]
    simp only [List.foldl_cons, List.foldl_nil, List.reverse_cons, List.reverse_nil,
      List.nil_append, List.cons_append, List.find?_cons]
    rw [lookup_assign]
    by_cases h : p.1 = k
    · rw [if_pos h.symm, decide_eq_true h]
      rfl
    · rw [if_neg (Ne.symm h), decide_eq_false h, ih]

theorem lookup_eq_some_iff (h : m.Ordered) : m.lookup k = some v ↔ (k, v) ∈ m := by
  induction m with
  | nil => simp [lookup]
  | cons p m ih =>
    obtain ⟨hp, hm⟩ := List.pairwise_cons.mp h
    rw [lookup_cons, List.mem_cons]
    by_cases heq : p.1 = k
    · rw [if_pos heq, Option.some_inj]
      constructor
      · rintro rfl
        exact .inl (Prod.ext heq.symm rfl)
      · rintro (rfl | hmem)
        · rfl
        · exact absurd heq (hp _ hmem).ne
    · rw [if_neg heq, ih hm]
      exact ⟨.inr, fun h => h.resolve_left fun h => heq (h ▸ rfl)⟩

theorem lookup_eq_none_iff : m.lookup k = none ↔ ∀ p ∈ m, p.1 ≠ k := by
  rw [lookup, Option.map_eq_none_iff, List.find?_eq_none]
  simp

/-- A key that is not there. -/
theorem mem_insertNew (hk : ∀ q ∈ m, q.1 ≠ k) : p ∈ m.insertNew k v ↔ p = (k, v) ∨ p ∈ m := by
  induction m with
  | nil => simp [insertNew]
  | cons q m ih =>
    obtain ⟨hq, hm⟩ := List.forall_mem_cons.mp hk
    rw [insertNew]
    by_cases h₁ : k < q.1
    · rw [if_pos h₁, List.mem_cons]
    · have h₂ : q.1 < k := lt_of_le_of_ne (not_lt.mp h₁) hq
      rw [if_neg h₁, if_pos h₂, List.mem_cons, ih hm, List.mem_cons]
      exact or_left_comm

theorem Ordered.insertNew (h : m.Ordered) (hk : ∀ q ∈ m, q.1 ≠ k) :
    (m.insertNew k v).Ordered := by
  induction m with
  | nil => exact List.pairwise_singleton _ _
  | cons q m ih =>
    obtain ⟨hq, hm⟩ := List.pairwise_cons.mp h
    obtain ⟨hqk, hmk⟩ := List.forall_mem_cons.mp hk
    rw [OrdMap.insertNew]
    by_cases h₁ : k < q.1
    · rw [if_pos h₁]
      refine List.pairwise_cons.mpr ⟨fun p hp => ?_, h⟩
      rcases List.mem_cons.mp hp with rfl | hp
      · exact h₁
      · exact h₁.trans (hq p hp)
    · have h₂ : q.1 < k := lt_of_le_of_ne (not_lt.mp h₁) hqk
      rw [if_neg h₁, if_pos h₂]
      refine List.pairwise_cons.mpr ⟨fun p hp => ?_, ih hm hmk⟩
      rcases (mem_insertNew hmk).mp hp with rfl | hp
      · exact h₂
      · exact hq p hp

/-- Two maps without a common key. -/
theorem insertRange_spec {range : OrdMap κ α} (h : m.Ordered) (hrange : range.Ordered)
    (hdisj : ∀ p ∈ m, ∀ q ∈ range, p.1 ≠ q.1) :
    (m.insertRange range).Ordered ∧ ∀ p, p ∈ m.insertRange range ↔ p ∈ m ∨ p ∈ range := by
  induction range generalizing m with
  | nil => exact ⟨h, fun p => (or_iff_left List.not_mem_nil).symm⟩
  | cons q range ih =>
    obtain ⟨hq, hrange⟩ := List.pairwise_cons.mp hrange
    have hnew : ∀ p ∈ m, p.1 ≠ q.1 := fun p hp => hdisj p hp q List.mem_cons_self
    have hmem {p : κ × α} : p ∈ m.insertNew q.1 q.2 ↔ p = q ∨ p ∈ m := mem_insertNew hnew
    obtain ⟨hord, hall⟩ := ih (m := m.insertNew q.1 q.2) (h.insertNew hnew) hrange <| by
      intro p hp q' hq'
      rcases hmem.mp hp with rfl | hp
      · exact (hq q' hq').ne
      · exact hdisj p hp q' (List.mem_cons_of_mem q hq')
    refine ⟨hord, fun p => (hall p).trans ?_⟩
    rw [hmem, List.mem_cons]
    exact or_assoc.trans or_left_comm

/-- An ordered map is determined by its entries. -/
theorem Ordered.ext (h : m.Ordered) (h' : m'.Ordered) (hmem : ∀ p, p ∈ m ↔ p ∈ m') : m = m' := by
  have hnodup {l : OrdMap κ α} (hl : l.Ordered) : l.Nodup :=
    hl.imp fun hlt heq => hlt.ne (by rw [heq])
  have hperm := (List.perm_ext_iff_of_nodup (hnodup h) (hnodup h')).mpr hmem
  have hasymm : ∀ p q, p ∈ m → q ∈ m' → p.1 < q.1 → q.1 < p.1 → p = q :=
    fun p q _ _ hpq hqp => absurd hpq hqp.not_gt
  exact hperm.eq_of_pairwise hasymm h h'

end OrdMap

end Dakota
