import Dakota.Lib.Numerals
import Mathlib

/-!
# Counters of runs

A counter that starts again whenever the entry of a list changes.

* `Grouped`: equal entries of the list stand together, as in a sorted list.
* `RunCounter.Counts.next`: then the counter numbers each entry among those that are equal to it.
* `passed`: the entries that a loop has met, which are numbered from 0 without a gap
  (`exists_count_passed`).
-/

namespace Dakota

section Grouped

variable {α : Type*}

/-- An entry that occurred before is the previous one. -/
def Grouped (l : List α) : Prop :=
  ∀ pre a post, l = pre ++ a :: post → a ∈ pre → pre.getLast? = some a

theorem grouped_of_pairwise_le {l : List α} {code : α → Nat}
    (hcode : ∀ {a b}, code a = code b → a = b)
    (h : l.Pairwise fun a b => code a ≤ code b) : Grouped l := by
  intro pre a post hl ha
  subst hl
  obtain ⟨hpre, -, hle⟩ := List.pairwise_append.mp h
  obtain rfl | ⟨init, b, rfl⟩ := List.eq_nil_or_concat pre
  · cases ha
  · rw [List.concat_eq_append] at ha hpre hle ⊢
    rw [List.getLast?_concat]
    have hba : code b ≤ code a := hle b (by simp) a List.mem_cons_self
    rcases List.mem_append.mp ha with ha | ha
    · have hab : code a ≤ code b := (List.pairwise_append.mp hpre).2.2 a ha b (by simp)
      rw [hcode (le_antisymm hba hab)]
    · rw [List.mem_singleton.mp ha]

theorem Grouped.append_left {l l' : List α} (h : Grouped (l ++ l')) : Grouped l := by
  intro pre a post hl ha
  refine h pre a (post ++ l') ?_ ha
  rw [hl, List.append_assoc, List.cons_append]

end Grouped

/-- The previous entry and the number of its run. -/
structure RunCounter (α : Type*) where
  prev : Option α
  cntr : Nat

namespace RunCounter

variable {α : Type*} [DecidableEq α] {c : RunCounter α} {done : List α} {a : α}

/-- The counter of a list that has been passed over. -/
structure Counts (c : RunCounter α) (done : List α) : Prop where
  prev_eq : c.prev = done.getLast?
  cntr_eq : ∀ a, c.prev = some a → c.cntr = done.count a

theorem counts_nil {cntr : Nat} : Counts (⟨none, cntr⟩ : RunCounter α) [] :=
  ⟨rfl, fun _ h => nomatch h⟩

/-- The number of the next entry among those that are equal to it. -/
theorem Counts.number (hc : c.Counts done) (h : Grouped (done ++ [a])) :
    (if some a = c.prev then c.cntr else 0) = done.count a := by
  split
  · rename_i heq
    exact hc.cntr_eq a heq.symm
  · rename_i hne
    symm
    rw [List.count_eq_zero]
    intro ha
    apply hne
    rw [hc.prev_eq]
    exact (h done a [] rfl ha).symm

theorem Counts.next (hc : c.Counts done) (h : Grouped (done ++ [a])) :
    Counts ⟨some a, (if some a = c.prev then c.cntr else 0) + 1⟩ (done ++ [a]) := by
  refine ⟨by rw [List.getLast?_concat], ?_⟩
  rintro b hb
  obtain rfl := Option.some.inj hb
  change (if some a = c.prev then c.cntr else 0) + 1 = _
  rw [hc.number h, List.count_append, List.count_singleton_self]

end RunCounter

/-! ## Entries of a pass -/

section Passed

variable {α : Type*} {f g : Nat → Option α} {a : α} {i n r : Nat}

/-- The entries that a loop over `0 .. n-1` has met. -/
def passed (f : Nat → Option α) (n : Nat) : List α := (List.range n).filterMap f

theorem passed_succ (f : Nat → Option α) (n : Nat) :
    passed f (n + 1) = passed f n ++ (f n).toList := by
  rw [passed, List.range_succ, List.filterMap_append]
  cases hf : f n <;> simp [passed, hf]

theorem passed_congr (h : ∀ i < n, f i = g i) : passed f n = passed g n :=
  List.filterMap_congr fun i hi => h i (List.mem_range.mp hi)

/-- A loop that meets an entry each time. -/
theorem length_passed (h : ∀ i < n, ∃ a, f i = some a) : (passed f n).length = n := by
  induction n with
  | zero => rfl
  | succ n ih =>
    obtain ⟨a, ha⟩ := h n (Nat.lt_succ_self n)
    rw [passed_succ, List.length_append, ih fun i hi => h i (Nat.lt_succ_of_lt hi), ha]
    rfl

theorem getElem?_passed (h : ∀ i < n, ∃ a, f i = some a) (hi : i < n) :
    (passed f n)[i]? = f i := by
  induction n with
  | zero => cases hi
  | succ n ih =>
    have hlen := length_passed fun i hi => h i (Nat.lt_succ_of_lt hi)
    rw [passed_succ]
    rcases Nat.lt_succ_iff_lt_or_eq.mp hi with hlt | rfl
    · rw [List.getElem?_append_left (by rwa [hlen]), ih (fun i hi => h i (Nat.lt_succ_of_lt hi)) hlt]
    · obtain ⟨a, ha⟩ := h i hi
      rw [List.getElem?_append_right hlen.le, hlen, Nat.sub_self, ha]
      rfl

theorem grouped_passed {code : α → Nat} (hcode : ∀ {a b}, code a = code b → a = b)
    (h : ∀ {i j a b}, i < j → f i = some a → f j = some b → code a ≤ code b) (n : Nat) :
    Grouped (passed f n) := by
  apply grouped_of_pairwise_le hcode
  unfold passed
  rw [List.pairwise_filterMap]
  exact List.pairwise_lt_range.imp fun hij a ha b hb => h hij ha hb

variable [DecidableEq α]

/-- An entry has a smaller number than the later ones that are equal to it. -/
theorem count_passed_lt (hi : i < n) (hf : f i = some a) :
    (passed f i).count a < (passed f n).count a := by
  have hsub : (passed f (i + 1)).Sublist (passed f n) := by
    unfold passed
    exact (List.range_sublist.mpr hi).filterMap f
  have hsucc : (passed f (i + 1)).count a = (passed f i).count a + 1 := by
    rw [passed_succ, hf, List.count_append]
    simp
  exact Nat.lt_of_lt_of_le (hsucc ▸ Nat.lt_succ_self _) (hsub.count_le a)

/-- Each number below the count is the number of an entry. -/
theorem exists_count_passed (h : r < (passed f n).count a) :
    ∃ i < n, f i = some a ∧ (passed f i).count a = r := by
  induction n with
  | zero => cases h
  | succ n ih =>
    rcases Nat.lt_or_ge r ((passed f n).count a) with hr | hr
    · obtain ⟨i, hi, hp⟩ := ih hr
      exact ⟨i, Nat.lt_succ_of_lt hi, hp⟩
    · rw [passed_succ, List.count_append] at h
      cases hf : f n with
      | none =>
        rw [hf] at h
        exact absurd h (Nat.not_lt.mpr hr)
      | some b =>
        rw [hf, Option.toList_some, List.count_singleton] at h
        split at h
        · rename_i hba
          rw [beq_iff_eq] at hba
          exact ⟨n, Nat.lt_succ_self n, hba ▸ hf, le_antisymm hr (Nat.lt_succ_iff.mp h)⟩
        · exact absurd h (Nat.not_lt.mpr hr)

end Passed

end Dakota
