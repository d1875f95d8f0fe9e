import Dakota.Lib.Numerals
import Mathlib

/-!
# Loops driven by an environment

A loop whose iterations each consume a report of the environment: which of the running jobs have
completed. The environment chooses the order and the grouping; all that is asked of it is that its
reports are valid for the state they meet, and that it is fair: it does not keep a running job back
for ever.

* `state env n`: the loop after `n` iterations (unchanged once it is done).
* `Sound`: an invariant that each iteration keeps, with progress: a loop that is not done has a
  running job, and an iteration that completes a job decreases the measure.
* `Sound.state_inv`: no environment makes the loop fail. `Sound.terminates`: a fair environment
  makes it end.
-/

/-- A loop over states `σ` with reports `ε` about jobs `ι`; its body can fail with an `α`. -/
structure EnvLoop (σ ε ι α : Type*) where
  done : σ → Bool
  body : ε → σ → Except α σ
  /-- The reports that the environment can make. -/
  valid : σ → ε → Prop
  running : σ → ι → Prop
  /-- The running jobs that a report completes. -/
  reported : σ → ε → ι → Prop

namespace EnvLoop

variable {σ ε ι α : Type*} (L : EnvLoop σ ε ι α)

/-- One iteration, if the loop is not done. -/
def next (e : ε) (s : σ) : Except α σ := if L.done s then .ok s else L.body e s

/-- The loop from `s₀` after `n` iterations. -/
def state (env : ℕ → ε) (s₀ : σ) : ℕ → Except α σ
  | 0 => .ok s₀
  | n + 1 => state env s₀ n >>= L.next (env n)

/-- Each report is valid for the state it meets. -/
def ValidEnv (env : ℕ → ε) (s₀ : σ) : Prop :=
  ∀ n s, L.state env s₀ n = .ok s → L.done s = false → L.valid s (env n)

/-- A running job is reported some time, unless the loop is done before. -/
def FairEnv (env : ℕ → ε) (s₀ : σ) : Prop :=
  ∀ n s i, L.state env s₀ n = .ok s → L.done s = false → L.running s i →
    ∃ m ≥ n, ∀ s', L.state env s₀ m = .ok s' → L.done s' ∨ L.reported s' (env m) i

/-- An invariant of the loop, with a measure for its progress. -/
structure Sound (inv : σ → Prop) (measure : σ → ℕ) : Prop where
  body : ∀ s e, inv s → L.done s = false → L.valid s e →
    ∃ s', L.body e s = .ok s' ∧ inv s' ∧ measure s' ≤ measure s ∧
      ((∃ i, L.reported s e i) → measure s' < measure s)
  progress : ∀ s, inv s → L.done s = false → ∃ i, L.running s i

variable {L} {inv : σ → Prop} {measure : σ → ℕ} {env : ℕ → ε} {s₀ : σ}

theorem state_succ {n : ℕ} {s : σ} (h : L.state env s₀ n = .ok s) :
    L.state env s₀ (n + 1) = L.next (env n) s := by
  rw [state, h]
  rfl

namespace Sound

variable (hL : L.Sound inv measure)
include hL

theorem next {s : σ} {e : ε} (hs : inv s) (hv : L.done s = false → L.valid s e) :
    ∃ s', L.next e s = .ok s' ∧ inv s' ∧ measure s' ≤ measure s ∧
      (L.done s = false → (∃ i, L.reported s e i) → measure s' < measure s) := by
  unfold EnvLoop.next
  cases hd : L.done s with
  | true => exact ⟨s, rfl, hs, le_rfl, by simp⟩
  | false =>
    obtain ⟨s', hok, hs', hle, hlt⟩ := hL.body s e hs hd (hv hd)
    exact ⟨s', hok, hs', hle, fun _ => hlt⟩

/-- No environment makes the loop fail or leave the invariant. -/
theorem state_inv (h₀ : inv s₀) (henv : L.ValidEnv env s₀) (n : ℕ) :
    ∃ s, L.state env s₀ n = .ok s ∧ inv s := by
  induction n with
  | zero => exact ⟨s₀, rfl, h₀⟩
  | succ n ih =>
    obtain ⟨s, hs, hinv⟩ := ih
    obtain ⟨s', hs', hinv', -⟩ := hL.next hinv (henv n s hs)
    exact ⟨s', by rw [state_succ hs, hs'], hinv'⟩

theorem measure_antitone (h₀ : inv s₀) (henv : L.ValidEnv env s₀) {n m : ℕ} (hnm : n ≤ m) {s s' : σ}
    (hs : L.state env s₀ n = .ok s) (hs' : L.state env s₀ m = .ok s') : measure s' ≤ measure s := by
  induction m, hnm using Nat.le_induction generalizing s' with
  | base => rw [Except.ok.inj (hs.symm.trans hs')]
  | succ m _ ih =>
    obtain ⟨t, ht, hinv⟩ := hL.state_inv h₀ henv m
    obtain ⟨t', ht', -, hle, -⟩ := hL.next hinv (henv m t ht)
    rw [state_succ ht, ht'] at hs'
    cases hs'
    exact hle.trans (ih ht)

/-- **Termination**: a fair environment completes the loop. The measure of the state strictly
decreases from each state to some later one, as long as the loop is not done. -/
theorem terminates (h₀ : inv s₀) (henv : L.ValidEnv env s₀) (hfair : L.FairEnv env s₀) :
    ∃ n s, L.state env s₀ n = .ok s ∧ L.done s = true ∧ inv s := by
  suffices h : ∀ k n s, L.state env s₀ n = .ok s → inv s → measure s ≤ k →
      ∃ n s, L.state env s₀ n = .ok s ∧ L.done s = true ∧ inv s from h _ 0 s₀ rfl h₀ le_rfl
  intro k
  induction k using Nat.strong_induction_on with
  | _ k ih =>
    intro n s hs hinv hk
    cases hd : L.done s with
    | true => exact ⟨n, s, hs, hd, hinv⟩
    | false =>
      obtain ⟨i, hi⟩ := hL.progress s hinv hd
      obtain ⟨m, hnm, hm⟩ := hfair n s i hs hd hi
      obtain ⟨t, ht, htinv⟩ := hL.state_inv h₀ henv m
      cases htd : L.done t with
      | true => exact ⟨m, t, ht, htd, htinv⟩
      | false =>
        have hrep : L.reported t (env m) i := by simpa [htd] using hm t ht
        obtain ⟨t', ht', htinv', -, hlt⟩ := hL.next htinv (henv m t ht)
        have hle := hL.measure_antitone h₀ henv hnm hs ht
        have hlt' := hlt htd ⟨i, hrep⟩
        exact ih (measure t') (by omega) (m + 1) t' (by rw [state_succ ht, ht']) htinv' le_rfl

end Sound

end EnvLoop
