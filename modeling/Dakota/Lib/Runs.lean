import Dakota.Lib.Outcome

/-!
# Runs of fallible steps

A run applies a step for each call of a list, until one fails. `run_inv`: an invariant that each
step keeps holds after every run, and the failures of a run are those of its steps. What a step is
allowed to assume of its call may depend on the state that the run has there (`Admitted`).
-/

namespace Outcome

variable {ε σ κ : Type*} {step : σ → κ → Except ε σ} {fails : ε → Prop} {inv : σ → Prop}
  {allowed : σ → κ → Prop} {s s' : σ} {calls : List κ}

/-- Each call of a run is allowed in the state that it meets. -/
def Admitted (step : σ → κ → Except ε σ) (allowed : σ → κ → Prop) (s : σ) (calls : List κ) :
    Prop :=
  ∀ pre call post, calls = pre ++ call :: post → ∀ s', pre.foldlM step s = .ok s' → allowed s' call

theorem Admitted.head {call : κ} (h : Admitted step allowed s (call :: calls)) : allowed s call :=
  h [] call calls rfl s rfl

theorem Admitted.tail {call : κ} (h : Admitted step allowed s (call :: calls))
    (hs : step s call = .ok s') : Admitted step allowed s' calls := by
  intro pre c post hcalls s₂ hs₂
  refine h (call :: pre) c post (by rw [hcalls]; rfl) s₂ ?_
  rw [List.foldlM_cons, hs]
  exact hs₂

/-- With a condition on the calls alone. -/
theorem Admitted.of_forall (h : ∀ call ∈ calls, ∀ s, allowed s call) :
    Admitted step allowed s calls := by
  rintro pre call post rfl s' -
  exact h call (by simp) s'

/-- The invariant after a run, from that after each step. -/
theorem run_inv (hstep : ∀ s call, inv s → allowed s call → Meets fails inv (step s call))
    (hs : inv s) (hcalls : Admitted step allowed s calls) :
    Meets fails inv (calls.foldlM step s) := by
  induction calls generalizing s with
  | nil => exact hs
  | cons call calls ih =>
    rw [List.foldlM_cons]
    have h := hstep s call hs hcalls.head
    cases hok : step s call with
    | ok s' =>
      rw [hok] at h
      exact ih h (hcalls.tail hok)
    | error e =>
      rw [hok] at h
      exact h

end Outcome
