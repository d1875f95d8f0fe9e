import Dakota.Lib.EnvLoop

/-!
# Loops that poll

A loop that tests for one kind of report at a time, and goes on when there is none. Such a loop need
not look when a job completes, so fairness is about the jobs that it looks for again and again.

* `PollFair`: a job that is polled infinitely often is reported some time.
* `Polls`: the loop waits for a job, and polls it after finitely many iterations unless it makes
  progress. `Polls.terminates`: a fair environment makes it end.
-/

namespace EnvLoop

variable {σ ε ι α : Type*} (L : EnvLoop σ ε ι α)

/-- A job that runs from some time on and is polled again and again is reported. -/
def PollFair (polled : σ → ι → Prop) (env : ℕ → ε) (s₀ : σ) : Prop :=
  ∀ n i, (∀ m ≥ n, ∀ s, L.state env s₀ m = .ok s → L.done s = false ∧ L.running s i) →
    (∀ m ≥ n, ∃ k ≥ m, ∀ s, L.state env s₀ k = .ok s → polled s i) →
    ∃ k ≥ n, ∀ s, L.state env s₀ k = .ok s → L.reported s (env k) i

/-- A loop that is not done waits for the job `target`, and `dist` counts the iterations until it
polls it. -/
structure Polls (inv : σ → Prop) (measure : σ → ℕ) (polled : σ → ι → Prop) (target : σ → ι)
    (dist : σ → ℕ) : Prop where
  running : ∀ s, inv s → L.done s = false → L.running s (target s)
  next : ∀ s e s', inv s → L.done s = false → L.valid s e → L.body e s = .ok s' →
    measure s' < measure s ∨
      target s' = target s ∧ (polled s (target s) ∨ dist s' < dist s)

variable {L} {inv : σ → Prop} {measure : σ → ℕ} {polled : σ → ι → Prop} {target : σ → ι}
  {dist : σ → ℕ} {env : ℕ → ε} {s₀ : σ}

/-- **Termination**: a fair environment makes a polling loop end. From where the measure stays the
same, the loop waits for one job and polls it again and again. -/
theorem Polls.terminates (hP : L.Polls inv measure polled target dist) (hL : L.Sound inv measure)
    (h₀ : inv s₀) (henv : L.ValidEnv env s₀) (hfair : L.PollFair polled env s₀) :
    ∃ n s, L.state env s₀ n = .ok s ∧ L.done s = true ∧ inv s := by
  choose s hs hinv using hL.state_inv h₀ henv
  by_contra hnone
  have hrun (n : ℕ) : L.done (s n) = false := by
    by_contra hd
    exact hnone ⟨n, s n, hs n, by simpa using hd, hinv n⟩
  have hstep (n : ℕ) : L.body (env n) (s n) = .ok (s (n + 1)) := by
    have h := (state_succ (hs n)).symm.trans (hs (n + 1))
    rwa [EnvLoop.next, hrun n, if_neg (by decide)] at h
  obtain ⟨N, hN⟩ : ∃ N, ∀ m ≥ N, measure (s m) = measure (s N) := by
    let f (n : ℕ) : ℕ := measure (s n)
    refine ⟨Function.argmin f, fun m hm => ?_⟩
    exact le_antisymm (hL.measure_antitone h₀ henv hm (hs _) (hs m)) (Function.argmin_le f m)
  have hnext (m : ℕ) (hm : m ≥ N) : target (s (m + 1)) = target (s m) ∧
      (polled (s m) (target (s m)) ∨ dist (s (m + 1)) < dist (s m)) := by
    refine (hP.next _ _ _ (hinv m) (hrun m) (henv m _ (hs m) (hrun m)) (hstep m)).resolve_left ?_
    rw [hN m hm, hN (m + 1) (by omega)]
    exact lt_irrefl _
  have htarget (m : ℕ) (hm : m ≥ N) : target (s m) = target (s N) := by
    induction m, hm using Nat.le_induction with
    | base => rfl
    | succ m hm ih => exact ((hnext m hm).1).trans ih
  have hpolled (d m : ℕ) (hm : m ≥ N) (hd : dist (s m) = d) :
      ∃ k ≥ m, polled (s k) (target (s N)) := by
    induction d using Nat.strong_induction_on generalizing m with
    | _ d ih =>
      rcases (hnext m hm).2 with hp | hlt
      · exact ⟨m, le_rfl, htarget m hm ▸ hp⟩
      · obtain ⟨k, hk, hp⟩ := ih _ (hd ▸ hlt) (m + 1) (by omega) rfl
        exact ⟨k, by omega, hp⟩
  obtain ⟨k, hk, hrep⟩ := hfair N (target (s N))
    (fun m hm t ht => by
      cases (hs m).symm.trans ht
      exact ⟨hrun m, htarget m hm ▸ hP.running _ (hinv m) (hrun m)⟩)
    (fun m hm => by
      obtain ⟨k, hk, hp⟩ := hpolled _ m hm rfl
      refine ⟨k, hk, fun t ht => ?_⟩
      cases (hs k).symm.trans ht
      exact hp)
  obtain ⟨t, ht, -, -, hlt⟩ := hL.body _ _ (hinv k) (hrun k) (henv k _ (hs k) (hrun k))
  rw [hstep k] at ht
  cases ht
  have := hlt ⟨_, hrep _ (hs k)⟩
  have := hN k hk
  have := hN (k + 1) (by omega)
  omega

end EnvLoop
