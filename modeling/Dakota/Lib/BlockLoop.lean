import Dakota.Lib.Numerals
import Mathlib.Algebra.BigOperators.Fin
import Mathlib.Logic.Equiv.Fin.Basic
import Mathlib.Tactic.SplitIfs

/-!
# Loops over consecutive blocks with a running offset

A list of blocks, each of a size of its own, laid out one after the other in a vector: the `k`-th
block starts where the blocks before it end. Code over such a layout walks the list with a running
offset and lets each block work on its own stretch.

* `total`: the length of the layout; `offset bs k` is where block `k` starts.
* `forBlocks`: the loop, with a body that may fail; `walkBlocks`: with one that cannot.
  `forBlocks_inv` is the rule.
* `forBlocks_window`: a body that changes only its own stretch, each from what was there before,
  leaves every stretch changed once.
* `place`: the positions of the layout are the pairs of a block and a position in it.
-/

namespace Dakota

variable {B : Type} (size : B → ℕ)

/-- The length of blocks laid out one after the other. -/
def total (bs : List B) : ℕ := (bs.map size).sum

@[simp] theorem total_nil : total size ([] : List B) = 0 := rfl

@[simp] theorem total_cons (b : B) (bs : List B) : total size (b :: bs) = size b + total size bs :=
  by simp [total]

@[simp] theorem total_append (bs cs : List B) :
    total size (bs ++ cs) = total size bs + total size cs := by simp [total]

/-- Where block `k` starts. -/
def offset (bs : List B) (k : ℕ) : ℕ := total size (bs.take k)

theorem offset_append (pre post : List B) : offset size (pre ++ post) pre.length = total size pre :=
  by simp [offset]

/-- A position in a list one longer is the last one or a position in the list. -/
theorem split_last {done pre post : List B} {b c : B} (h : done ++ [b] = pre ++ c :: post) :
    (pre = done ∧ c = b ∧ post = []) ∨ ∃ post', done = pre ++ c :: post' ∧ post = post' ++ [b] := by
  rcases List.eq_nil_or_concat post with rfl | ⟨post', d, rfl⟩
  · left
    have := List.append_inj' h rfl
    simp_all
  · right
    rw [List.concat_eq_append, ← List.cons_append, ← List.append_assoc] at h
    obtain ⟨hdone, hd⟩ := List.append_inj' h rfl
    obtain rfl : b = d := by simpa using hd
    exact ⟨post', hdone, List.concat_eq_append⟩

section Loop

variable {σ ε : Type}

/-- Visits the blocks in order, handing each its offset. -/
def forBlocks (bs : List B) (s : σ) (body : σ → ℕ → B → Except ε σ) : Except ε σ :=
  Prod.snd <$> bs.foldlM (fun st b => (fun s' => (st.1 + size b, s')) <$> body st.2 st.1 b) (0, s)

/-- The loop with a body that cannot fail. -/
def walkBlocks (bs : List B) (s : σ) (body : σ → ℕ → B → σ) : σ :=
  (bs.foldl (fun st b => (st.1 + size b, body st.2 st.1 b)) (0, s)).2

theorem forBlocks_ok (bs : List B) (s : σ) (body : σ → ℕ → B → σ) :
    forBlocks size bs s (fun s o b => (.ok (body s o b) : Except ε σ)) =
      .ok (walkBlocks size bs s body) := by
  have step : (fun st b => (fun s' => (st.1 + size b, s')) <$>
      (Except.ok (body st.2 st.1 b) : Except ε σ)) =
      fun (st : ℕ × σ) b => pure (st.1 + size b, body st.2 st.1 b) := rfl
  rw [forBlocks, walkBlocks, step, List.foldlM_pure]
  rfl

theorem walkBlocks_keep (bs : List B) (s : σ) (body : σ → ℕ → B → σ) (keep : σ → Prop)
    (h0 : keep s) (hstep : ∀ s o b, keep s → keep (body s o b)) :
    keep (walkBlocks size bs s body) :=
  List.foldlRecOn bs _ (motive := fun st : ℕ × σ => keep st.2) h0
    fun _ hst _ _ => hstep _ _ _ hst

/-- The rule of the loop: the invariant speaks about the blocks visited so far. -/
theorem forBlocks_inv (bs : List B) (s : σ) (body : σ → ℕ → B → Except ε σ)
    (inv : List B → σ → Prop) (h0 : inv [] s)
    (hstep : ∀ pre b post s, bs = pre ++ b :: post → inv pre s →
      ∃ s', body s (total size pre) b = .ok s' ∧ inv (pre ++ [b]) s') :
    ∃ s', forBlocks size bs s body = .ok s' ∧ inv bs s' := by
  -- from any point of the run: `pre` is behind, `rest` is ahead
  have run : ∀ rest pre s, bs = pre ++ rest → inv pre s →
      ∃ s', rest.foldlM (fun st b => (fun s' => (st.1 + size b, s')) <$> body st.2 st.1 b)
        (total size pre, s) = .ok (total size bs, s') ∧ inv bs s' := by
    intro rest
    induction rest with
    | nil =>
      intro pre s hbs hinv
      rw [List.append_nil] at hbs
      subst hbs
      exact ⟨s, rfl, hinv⟩
    | cons b rest ih =>
      intro pre s hbs hinv
      obtain ⟨s₁, hbody, hinv₁⟩ := hstep pre b rest s hbs hinv
      obtain ⟨s', hrun, hinv'⟩ := ih (pre ++ [b]) s₁ (by simp [hbs]) hinv₁
      refine ⟨s', ?_, hinv'⟩
      rw [total_append, total_cons, total_nil, Nat.add_zero] at hrun
      rw [List.foldlM_cons, hbody]
      exact hrun
  obtain ⟨s', hrun, hinv⟩ := run bs [] s rfl h0
  refine ⟨s', ?_, hinv⟩
  rw [total_nil] at hrun
  rw [forBlocks, hrun]
  rfl

/-- A body that changes only its own stretch of what `read` sees, working from what stood there
before the loop: in the end every stretch is as its own body made it. -/
theorem forBlocks_window {α : Type} (bs : List B) (s : σ) (body : σ → ℕ → B → Except ε σ)
    (read : σ → ℕ → α) (keep : σ → Prop) (made : ℕ → B → ℕ → α → Prop) (hkeep : keep s)
    (hbody : ∀ pre b post t, bs = pre ++ b :: post → keep t →
      (∀ i < size b, read t (total size pre + i) = read s (total size pre + i)) →
      ∃ t', body t (total size pre) b = .ok t' ∧ keep t' ∧
        (∀ i < size b, made (total size pre) b i (read t' (total size pre + i))) ∧
        ∀ j, j < total size pre ∨ total size pre + size b ≤ j → read t' j = read t j) :
    ∃ s', forBlocks size bs s body = .ok s' ∧ keep s' ∧
      ∀ pre b post, bs = pre ++ b :: post →
        ∀ i < size b, made (total size pre) b i (read s' (total size pre + i)) := by
  obtain ⟨s', hrun, hk, hdone, -⟩ := forBlocks_inv size bs s body
    (fun done t => keep t ∧
      (∀ pre b post, done = pre ++ b :: post →
        ∀ i < size b, made (total size pre) b i (read t (total size pre + i))) ∧
      ∀ j, total size done ≤ j → read t j = read s j)
    ⟨hkeep, fun pre b post h => by simp at h, fun _ _ => rfl⟩ (by
      rintro pre b post t hbs ⟨hk, hdone, hahead⟩
      obtain ⟨t', hok, hk', hin, hout⟩ := hbody pre b post t hbs hk
        fun i _ => hahead _ (Nat.le_add_right _ _)
      refine ⟨t', hok, hk', ?_, fun j hj => ?_⟩
      · intro p c q hp i hi
        obtain ⟨rfl, rfl, -⟩ | ⟨q', rfl, hq⟩ := split_last hp
        · exact hin i hi
        · have hlt : total size p + i < total size (p ++ c :: q') := by
            simp only [total_append, total_cons]
            omega
          rw [hout _ (Or.inl hlt)]
          exact hdone p c q' rfl i hi
      · simp only [total_append, total_cons, total_nil, Nat.add_zero] at hj
        rw [hout j (Or.inr hj)]
        exact hahead j (by omega))
  exact ⟨s', hrun, hk, hdone⟩

/-- The same for a body that cannot fail. -/
theorem walkBlocks_window {α : Type} {bs : List B} {s : σ} {body : σ → ℕ → B → σ}
    (read : σ → ℕ → α) (made : ℕ → B → ℕ → α → Prop)
    (hbody : ∀ pre b post t, bs = pre ++ b :: post →
      (∀ i < size b, read t (total size pre + i) = read s (total size pre + i)) →
      (∀ i < size b, made (total size pre) b i
        (read (body t (total size pre) b) (total size pre + i))) ∧
      ∀ j, j < total size pre ∨ total size pre + size b ≤ j →
        read (body t (total size pre) b) j = read t j)
    (pre : List B) (b : B) (post : List B) (hbs : bs = pre ++ b :: post) (i : ℕ) (hi : i < size b) :
    made (total size pre) b i (read (walkBlocks size bs s body) (total size pre + i)) := by
  obtain ⟨s', hrun, -, hdone⟩ := forBlocks_window (ε := Empty) size bs s
    (fun s o b => .ok (body s o b)) read (fun _ => True) made trivial
    fun pre b post t hbs _ hahead => ⟨_, rfl, trivial, hbody pre b post t hbs hahead⟩
  rw [forBlocks_ok] at hrun
  cases hrun
  exact hdone pre b post hbs i hi

end Loop

section Place

variable (bs : List B)

theorem offset_eq_sum {k : ℕ} (hk : k ≤ bs.length) :
    offset size bs k = ∑ i : Fin k, size (bs.get (Fin.castLE hk i)) := by
  induction k with
  | zero => simp [offset]
  | succ k ih =>
    rw [Fin.sum_univ_castSucc, offset, List.take_succ_eq_append_getElem hk, total_append]
    have := ih (Nat.le_of_succ_le hk)
    rw [offset] at this
    rw [this]
    simp

/-- The positions of the layout: a block and a position in it. -/
def place : (Σ k : Fin bs.length, Fin (size (bs.get k))) ≃ Fin (total size bs) :=
  finSigmaFinEquiv.trans (finCongr (by
    have := offset_eq_sum size bs le_rfl
    rw [offset, List.take_length] at this
    exact this.symm))

theorem place_val (k : Fin bs.length) (i : Fin (size (bs.get k))) :
    (place size bs ⟨k, i⟩ : ℕ) = offset size bs k + i := by
  rw [offset_eq_sum size bs k.2.le]
  exact finSigmaFinEquiv_apply (n := fun k => size (bs.get k)) ⟨k, i⟩

/-- Where a block stands in the list. -/
theorem eq_take_get_drop (k : Fin bs.length) :
    bs = bs.take k ++ bs.get k :: bs.drop (k + 1) := by
  simp

end Place

end Dakota
