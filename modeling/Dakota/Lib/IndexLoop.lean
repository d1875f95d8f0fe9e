import Dakota.Lib.Numerals
import Mathlib

/-!
# Loops over computed positions

A loop that, for each entry of a list, finds a position in an array and modifies the entry there in
place.

* `modifyAt_eq_ok`, `modifyAt_spec`: if every position is found and no two are the same, each entry
  is modified once and the others are kept.
* `modifyEach_eq_ok_iff`: a loop that replaces the entries at given positions, by a step that may
  fail.
* `foldlM_finRange`, `foldl_take_finRange`, `foldl_drop_finRange`: what every step of a loop
  preserves, a loop over all or some of the numbers below `n` preserves.
* `prefix_of_idxOf_lt`: the positions of a sublist in a list without duplicates are within its own
  length only if it is a prefix.
-/

namespace Dakota

section Modify

variable {α β ι K ε : Type} [DecidableEq ι]

/-- `array[key(position)] = f(position, array[key(position)])` for each entry. -/
def modifyAt (position : α → Except ε β) (key : β → ι) (f : β → K → K) (array : ι → K)
    (entries : List α) : Except ε (ι → K) :=
  entries.foldlM (fun array a => do
    let p ← position a
    return Function.update array (key p) (f p (array (key p)))) array

variable {position : α → Except ε β} {key : β → ι} {f : β → K → K} {array array' : ι → K}
  {entries : List α} {pos : α → β}

/-- The entries that the positions lead to, if all of them are found. -/
theorem modifyAt_eq_ok (h : ∀ a ∈ entries, position a = .ok (pos a)) :
    modifyAt position key f array entries = .ok (entries.foldl (fun array a =>
      Function.update array (key (pos a)) (f (pos a) (array (key (pos a))))) array) := by
  unfold modifyAt
  induction entries generalizing array with
  | nil => rfl
  | cons a entries ih =>
    have ha := h a List.mem_cons_self
    have hrest : ∀ a ∈ entries, position a = .ok (pos a) :=
      fun b hb => h b (List.mem_cons_of_mem a hb)
    rw [List.foldlM_cons, ha]
    exact ih hrest

/-- A loop that ends has found every position. -/
theorem position_of_modifyAt (h : modifyAt position key f array entries = .ok array') :
    ∀ a ∈ entries, ∃ p, position a = .ok p := by
  unfold modifyAt at h
  induction entries generalizing array with
  | nil =>
    intro a ha
    cases ha
  | cons b entries ih =>
    rw [List.foldlM_cons] at h
    intro a ha
    cases hb : position b with
    | error e =>
      rw [hb] at h
      cases h
    | ok p =>
      rw [hb] at h
      rcases List.mem_cons.mp ha with rfl | ha
      · exact ⟨p, hb⟩
      · exact ih h a ha

/-- Entries that no position leads to are kept. -/
theorem foldl_update_of_notMem {x : ι} (h : ∀ a ∈ entries, key (pos a) ≠ x) :
    entries.foldl (fun array a =>
      Function.update array (key (pos a)) (f (pos a) (array (key (pos a))))) array x = array x := by
  induction entries generalizing array with
  | nil => rfl
  | cons a entries ih =>
    have hne : x ≠ key (pos a) := (h a List.mem_cons_self).symm
    rw [List.foldl_cons, ih fun b hb => h b (List.mem_cons_of_mem a hb),
      Function.update_of_ne hne]

/-- With distinct positions, each entry is modified once. -/
theorem foldl_update_of_mem (hnd : (entries.map fun a => key (pos a)).Nodup) {a : α}
    (ha : a ∈ entries) :
    entries.foldl (fun array a =>
      Function.update array (key (pos a)) (f (pos a) (array (key (pos a))))) array (key (pos a)) =
        f (pos a) (array (key (pos a))) := by
  induction entries generalizing array with
  | nil => cases ha
  | cons b entries ih =>
    rw [List.map_cons, List.nodup_cons] at hnd
    obtain ⟨hb, hnd⟩ := hnd
    have hne : ∀ c ∈ entries, key (pos c) ≠ key (pos b) := by
      intro c hc heq
      exact hb (heq ▸ List.mem_map_of_mem hc)
    rw [List.foldl_cons]
    rcases List.mem_cons.mp ha with rfl | ha
    · rw [foldl_update_of_notMem hne, Function.update_self]
    · rw [ih hnd ha, Function.update_of_ne (hne a ha)]

/-- What a loop over found and distinct positions does. -/
theorem modifyAt_spec (key : β → ι) (f : β → K → K) (array : ι → K) (pos : α → β)
    (h : ∀ a ∈ entries, position a = .ok (pos a))
    (hnd : (entries.map fun a => key (pos a)).Nodup) :
    ∃ array', modifyAt position key f array entries = .ok array' ∧
      (∀ a ∈ entries, array' (key (pos a)) = f (pos a) (array (key (pos a)))) ∧
      ∀ x, (∀ a ∈ entries, key (pos a) ≠ x) → array' x = array x := by
  refine ⟨_, modifyAt_eq_ok h, ?_, ?_⟩
  · intro a ha
    exact foldl_update_of_mem hnd ha
  · intro x hx
    exact foldl_update_of_notMem hx

end Modify

section Keyed

variable {α ι K ε : Type} [DecidableEq ι]

/-- `array[key(a)] = step(a, array[key(a)])` for each entry of a list. -/
def modifyKeyed (key : α → ι) (step : α → K → Except ε K) (array : ι → K) (entries : List α) :
    Except ε (ι → K) :=
  entries.foldlM (fun array a => do
    let v ← step a (array (key a))
    return Function.update array (key a) v) array

variable {key : α → ι} {step : α → K → Except ε K} {array array' : ι → K} {entries : List α}

/-- With distinct keys, the steps see the array as it was. -/
theorem modifyKeyed_eq_ok_iff (hnd : (entries.map key).Nodup) :
    modifyKeyed key step array entries = .ok array' ↔
      (∀ a ∈ entries, step a (array (key a)) = .ok (array' (key a))) ∧
        ∀ x ∉ entries.map key, array' x = array x := by
  unfold modifyKeyed
  induction entries generalizing array with
  | nil =>
    constructor
    · intro h
      cases h
      simp
    · rintro ⟨-, h⟩
      have harray : array' = array := funext fun x => h x List.not_mem_nil
      rw [harray]
      rfl
  | cons a entries ih =>
    rw [List.map_cons, List.nodup_cons] at hnd
    obtain ⟨ha, hnd⟩ := hnd
    have hne : ∀ b ∈ entries, key b ≠ key a := fun b hb heq =>
      ha (List.mem_map.mpr ⟨b, hb, heq⟩)
    rw [List.foldlM_cons]
    cases hv : step a (array (key a)) with
    | error e =>
      constructor
      · intro h
        cases h
      · rintro ⟨h, -⟩
        rw [h a List.mem_cons_self] at hv
        cases hv
    | ok v =>
      refine (ih hnd).trans ⟨?_, ?_⟩
      · rintro ⟨hmem, hkeep⟩
        have hself : array' (key a) = v := by rw [hkeep (key a) ha, Function.update_self]
        refine ⟨?_, ?_⟩
        · intro b hb
          rcases List.mem_cons.mp hb with rfl | hb
          · rw [hv, hself]
          · have := hmem b hb
            rwa [Function.update_of_ne (hne b hb)] at this
        · intro x hx
          rw [List.map_cons] at hx
          obtain ⟨hxa, hx⟩ := List.ne_and_not_mem_of_not_mem_cons hx
          rw [hkeep x hx, Function.update_of_ne hxa]
      · rintro ⟨hmem, hkeep⟩
        have hself : array' (key a) = v := by
          have := hmem a List.mem_cons_self
          rw [hv] at this
          injection this with this
          exact this.symm
        refine ⟨?_, ?_⟩
        · intro b hb
          rw [Function.update_of_ne (hne b hb)]
          exact hmem b (List.mem_cons_of_mem a hb)
        · intro x hx
          by_cases hxa : x = key a
          · rw [hxa, hself, Function.update_self]
          · rw [Function.update_of_ne hxa]
            exact hkeep x (by simp [hxa]; simpa using hx)

theorem exists_modifyKeyed (hnd : (entries.map key).Nodup)
    (h : ∀ a ∈ entries, ∃ v, step a (array (key a)) = .ok v) :
    ∃ array', modifyKeyed key step array entries = .ok array' := by
  unfold modifyKeyed
  induction entries generalizing array with
  | nil => exact ⟨array, rfl⟩
  | cons a entries ih =>
    rw [List.map_cons, List.nodup_cons] at hnd
    obtain ⟨ha, hnd⟩ := hnd
    obtain ⟨v, hv⟩ := h a List.mem_cons_self
    rw [List.foldlM_cons, hv]
    refine ih hnd fun b hb => ?_
    have hne : key b ≠ key a := fun heq => ha (List.mem_map.mpr ⟨b, hb, heq⟩)
    rw [Function.update_of_ne hne]
    exact h b (List.mem_cons_of_mem a hb)

end Keyed

section Each

variable {ι K ε : Type} [DecidableEq ι]

/-- `array[i] = step(i, array[i])` for each position of a list. -/
def modifyEach (step : ι → K → Except ε K) (array : ι → K) (positions : List ι) :
    Except ε (ι → K) :=
  positions.foldlM (fun array i => do
    let v ← step i (array i)
    return Function.update array i v) array

variable {step : ι → K → Except ε K} {array array' : ι → K} {positions : List ι}

/-- Without duplicates, a loop that ends has replaced the entries one by one. -/
theorem modifyEach_eq_ok_iff (hnd : positions.Nodup) :
    modifyEach step array positions = .ok array' ↔
      (∀ i ∈ positions, step i (array i) = .ok (array' i)) ∧
        ∀ i ∉ positions, array' i = array i := by
  have hkeyed : modifyKeyed id step array positions = .ok array' ↔ _ :=
    modifyKeyed_eq_ok_iff (by rwa [List.map_id])
  rw [List.map_id] at hkeyed
  exact hkeyed

end Each

section Range

variable {σ ε : Type} {n d : Nat} {s : σ} {inv : Nat → σ → Prop}

theorem foldl_drop_finRange {f : σ → Fin n → σ} (h₀ : inv d s) (hd : d ≤ n)
    (hstep : ∀ (i : Fin n) s, d ≤ i → inv i s → inv (i + 1) (f s i)) :
    inv n (((List.finRange n).drop d).foldl f s) := by
  induction h : n - d generalizing d s with
  | zero =>
    have hdn : d = n := by omega
    rw [List.drop_of_length_le (by rw [List.length_finRange, hdn])]
    rwa [hdn] at h₀
  | succ k ih =>
    have hlt : d < n := by omega
    rw [List.drop_eq_getElem_cons (by rwa [List.length_finRange]), List.foldl_cons]
    refine ih ?_ hlt (fun i s hi => hstep i s (Nat.le_of_succ_le hi)) (by omega)
    simpa using hstep ⟨d, hlt⟩ s le_rfl h₀

theorem foldl_take_finRange {f : σ → Fin n → σ} (h₀ : inv 0 s) (hd : d ≤ n)
    (hstep : ∀ (i : Fin n) s, i < d → inv i s → inv (i + 1) (f s i)) :
    inv d (((List.finRange n).take d).foldl f s) := by
  induction d with
  | zero => exact h₀
  | succ d ih =>
    have hlt : d < n := hd
    rw [List.take_add_one, List.getElem?_eq_getElem (by rwa [List.length_finRange]),
      List.foldl_append]
    simpa using hstep ⟨d, hlt⟩ _ (Nat.lt_succ_self d)
      (ih hlt.le fun i s hi => hstep i s (hi.trans (Nat.lt_succ_self d)))

theorem foldlM_finRange {f : σ → Fin n → Except ε σ} (h₀ : inv 0 s)
    (hstep : ∀ (i : Fin n) s, inv i s → ∃ s', f s i = .ok s' ∧ inv (i + 1) s') :
    ∃ s', (List.finRange n).foldlM f s = .ok s' ∧ inv n s' := by
  suffices h : ∀ d ≤ n, ∃ s', ((List.finRange n).take d).foldlM f s = .ok s' ∧ inv d s' by
    obtain ⟨s', hs', hinv⟩ := h n le_rfl
    rw [List.take_of_length_le (by rw [List.length_finRange])] at hs'
    exact ⟨s', hs', hinv⟩
  intro d hd
  induction d with
  | zero => exact ⟨s, rfl, h₀⟩
  | succ d ih =>
    have hlt : d < n := hd
    obtain ⟨s₁, hs₁, hinv⟩ := ih hlt.le
    obtain ⟨s₂, hs₂, hinv₂⟩ := hstep ⟨d, hlt⟩ s₁ hinv
    refine ⟨s₂, ?_, hinv₂⟩
    have hget : (List.finRange n)[d]? = some ⟨d, hlt⟩ := by simp [hlt]
    rw [List.take_add_one, hget, Option.toList_some, List.foldlM_append, hs₁]
    change List.foldlM f s₁ [⟨d, hlt⟩] = _
    rw [List.foldlM_cons, hs₂]
    rfl

end Range

section Sublist

variable {α : Type} [DecidableEq α] {l l' : List α}

/-- A sublist whose elements are all among the first ones is a prefix. -/
theorem prefix_of_idxOf_lt (hsub : l.Sublist l') (hnd : l'.Nodup)
    (h : ∀ a ∈ l, l'.idxOf a < l.length) : l <+: l' := by
  induction hsub with
  | slnil => exact List.nil_prefix
  | @cons l l' b hsub ih =>
    rw [List.nodup_cons] at hnd
    obtain ⟨hb, hnd⟩ := hnd
    -- every element of the sublist is one position further than in the tail
    have hlt : ∀ a ∈ l, l'.idxOf a + 1 < l.length := by
      intro a ha
      have hne : b ≠ a := fun hba => hb (hba ▸ hsub.subset ha)
      have := h a ha
      rwa [List.idxOf_cons_ne l' hne] at this
    have hpre : l <+: l' := ih hnd fun a ha => (Nat.lt_succ_self _).trans (hlt a ha)
    rcases List.eq_nil_or_concat l with rfl | ⟨l₀, a, rfl⟩
    · exact List.nil_prefix
    · -- the last element of a prefix is at its length
      obtain ⟨t, rfl⟩ := hpre
      have ha := hlt a (by simp)
      have hmem : a ∉ l₀ := by
        simp only [List.concat_eq_append, List.append_assoc, List.nodup_append] at hnd
        intro hl
        exact hnd.2.2 a hl a (by simp) rfl
      simp only [List.concat_eq_append, List.append_assoc, List.length_append] at ha
      rw [List.idxOf_append_of_notMem hmem] at ha
      simp at ha
  | @cons_cons l l' b hsub ih =>
    rw [List.nodup_cons] at hnd
    obtain ⟨hb, hnd⟩ := hnd
    refine List.cons_prefix_cons.mpr ⟨rfl, ih hnd fun a ha => ?_⟩
    have hne : b ≠ a := fun hba => hb (hba ▸ hsub.subset ha)
    have hlt := h a (List.mem_cons_of_mem b ha)
    rw [List.idxOf_cons_ne l' hne, List.length_cons] at hlt
    exact Nat.lt_of_succ_lt_succ hlt

/-- The position of an element of a prefix in a list without duplicates. -/
theorem idxOf_getElem_of_prefix (hpre : l <+: l') (hnd : l'.Nodup) {j : Nat} (hj : j < l.length) :
    l'.idxOf l[j] = j := by
  obtain ⟨t, rfl⟩ := hpre
  have hj' : j < (l ++ t).length := by
    rw [List.length_append]
    omega
  have := hnd.idxOf_getElem j hj'
  rwa [List.getElem_append_left hj] at this

end Sublist

end Dakota
