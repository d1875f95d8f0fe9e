import Dakota.Lib.Outcome

/-!
# Simulation of fallible runs

Two step functions over the same calls, one of them the specification of the other. `Simulates R`:
both return and their results are in `R`, or both fail with the same error. `run_simulates`: a
relation that each allowed call keeps holds after a whole run.
-/

namespace Outcome

variable {ε σ τ σ' τ' κ : Type} {R : σ → τ → Prop} {R' : σ' → τ' → Prop}

/-- The outcome `x` is that of the specification, `y`. -/
def Simulates (R : σ → τ → Prop) : Except ε σ → Except ε τ → Prop
  | .ok s, .ok a => R s a
  | .error e, .error e' => e = e'
  | _, _ => False

variable {x : Except ε σ} {y : Except ε τ}

@[simp] theorem simulates_ok {s : σ} {a : τ} :
    Simulates R (.ok s : Except ε σ) (.ok a) ↔ R s a := .rfl

@[simp] theorem simulates_error {e e' : ε} :
    Simulates R (.error e : Except ε σ) (.error e' : Except ε τ) ↔ e = e' := .rfl

theorem Simulates.bind {f : σ → Except ε σ'} {g : τ → Except ε τ'} (h : Simulates R x y)
    (hf : ∀ s a, R s a → Simulates R' (f s) (g a)) : Simulates R' (x >>= f) (y >>= g) := by
  cases x with
  | ok s =>
    cases y with
    | ok a => exact hf s a h
    | error e => exact h.elim
  | error e =>
    cases y with
    | ok a => exact h.elim
    | error e' => exact h

theorem Simulates.imp {R₂ : σ → τ → Prop} (h : Simulates R x y) (hr : ∀ s a, R s a → R₂ s a) :
    Simulates R₂ x y := by
  cases x with
  | ok s =>
    cases y with
    | ok a => exact hr s a h
    | error e => exact h.elim
  | error e =>
    cases y with
    | ok a => exact h.elim
    | error e' => exact h

/-- A computation that both sides share. -/
theorem simulates_bind_same {α : Type} (x : Except ε α) {f : α → Except ε σ} {g : α → Except ε τ}
    (h : ∀ a, x = .ok a → Simulates R (f a) (g a)) : Simulates R (x >>= f) (x >>= g) := by
  cases x with
  | ok a => exact h a rfl
  | error e => exact rfl

variable {step : σ → κ → Except ε σ} {spec : τ → κ → Except ε τ} {allowed : κ → Prop}

/-- A run, from its steps. -/
theorem run_simulates
    (hstep : ∀ s a call, R s a → allowed call → Simulates R (step s call) (spec a call))
    (calls : List κ) (hcalls : ∀ call ∈ calls, allowed call) {s : σ} {a : τ} (h : R s a) :
    Simulates R (calls.foldlM step s) (calls.foldlM spec a) := by
  induction calls generalizing s a with
  | nil => exact h
  | cons call calls ih =>
    simp only [List.foldlM_cons]
    exact (hstep s a call h (hcalls call List.mem_cons_self)).bind fun s a h =>
      ih (fun c hc => hcalls c (List.mem_cons_of_mem call hc)) h

end Outcome
