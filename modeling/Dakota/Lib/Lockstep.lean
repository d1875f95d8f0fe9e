import Mathlib

/-!
# Producers and consumers in lockstep

A computation that is split in two: the first half appends what the second half needs to queues, and
the second half reads it from the front. The queues are a monoid, and `deliver` is what happens to
them in between.

* `Writes` and `Reads`: what one run appends, and what another one takes off the front.
* `Lockstep`: the two halves follow the computation that is not split, from related states to
  related states; where that one fails, the first half does (`Follows`). The rules are those of the
  code: `Follows.prepend`, `Lockstep.bind`, `Lockstep.foldlM`, `Lockstep.foldl`.
-/

namespace Outcome

variable {ε ε' : Type*} {σ τ υ Q Q' ι : Type} [AddMonoid Q] [AddMonoid Q']

/-- The run from `t` to `t'` appends `a`. -/
def Writes (produce : τ × Q → Except ε (τ × Q)) (t t' : τ) (a : Q) : Prop :=
  ∀ w, produce (t, w) = .ok (t', w + a)

/-- The run from `u` to `u'` takes `a` off the front. -/
def Reads (consume : υ × Q' → Except ε' (υ × Q')) (u u' : υ) (a : Q') : Prop :=
  ∀ r, consume (u, a + r) = .ok (u', r)

section Runs

variable {produce produce₁ produce₂ : τ × Q → Except ε (τ × Q)} {t t₁ t₂ : τ} {a b : Q}
  {consume₁ consume₂ : υ × Q' → Except ε' (υ × Q')} {u u₁ u₂ : υ} {a' b' : Q'}

theorem Writes.refl : Writes (ε := ε) (fun s => .ok s) t t (0 : Q) := fun w => by rw [add_zero]

theorem Reads.refl : Reads (fun s => (.ok s : Except ε' (υ × Q'))) u u 0 := fun r => by
  rw [zero_add]

theorem Writes.bind (h₁ : Writes produce₁ t t₁ a) (h₂ : Writes produce₂ t₁ t₂ b) :
    Writes (fun s => produce₁ s >>= produce₂) t t₂ (a + b) := by
  intro w
  show produce₁ (t, w) >>= produce₂ = _
  rw [h₁ w]
  exact (h₂ (w + a)).trans (by rw [add_assoc])

theorem Reads.bind (h₁ : Reads consume₁ u u₁ a') (h₂ : Reads consume₂ u₁ u₂ b') :
    Reads (fun s => consume₁ s >>= consume₂) u u₂ (a' + b') := by
  intro r
  show consume₁ (u, a' + b' + r) >>= consume₂ = _
  rw [add_assoc, h₁ (b' + r)]
  exact h₂ r

end Runs

/-- The two halves follow the result `x` of the computation from the states `t` and `u`. -/
def Follows (deliver : Q →+ Q') (R : σ → τ → υ → Prop) (produce : τ × Q → Except ε (τ × Q))
    (consume : υ × Q' → Except ε' (υ × Q')) (t : τ) (u : υ) : Except ε σ → Prop
  | .error e => ∀ w, produce (t, w) = .error e
  | .ok s => ∃ t' u' a, Writes produce t t' a ∧ Reads consume u u' (deliver a) ∧ R s t' u'

/-- From states in `R`, the two halves follow `direct` to states in `R'`. -/
def Lockstep (deliver : Q →+ Q') (R R' : σ → τ → υ → Prop) (direct : σ → Except ε σ)
    (produce : τ × Q → Except ε (τ × Q)) (consume : υ × Q' → Except ε' (υ × Q')) : Prop :=
  ∀ s t u, R s t u → Follows deliver R' produce consume t u (direct s)

variable {deliver : Q →+ Q'} {R R₁ R₂ : σ → τ → υ → Prop} {direct₁ direct₂ : σ → Except ε σ}
  {produce₁ produce₂ : τ × Q → Except ε (τ × Q)} {consume₁ consume₂ : υ × Q' → Except ε' (υ × Q')}

/-- The halves end. -/
theorem Follows.ok {s : σ} {t : τ} {u : υ} (h : R s t u) :
    Follows deliver R .ok (.ok (ε := ε')) t u (.ok (ε := ε) s) :=
  ⟨t, u, 0, .refl, by rw [map_zero]; exact .refl, h⟩

/-- What follows a first part that is run. -/
theorem Follows.prepend {t t₁ : τ} {u u₁ : υ} {x : Except ε σ} (a : Q)
    (hw : ∀ w, produce₁ (t, w) = produce₂ (t₁, w + a))
    (hrd : ∀ r, consume₁ (u, deliver a + r) = consume₂ (u₁, r))
    (h : Follows deliver R produce₂ consume₂ t₁ u₁ x) :
    Follows deliver R produce₁ consume₁ t u x := by
  cases x with
  | error e => exact fun w => (hw w).trans (h _)
  | ok s =>
    obtain ⟨t₂, u₂, b, hw₂, hrd₂, hs⟩ := h
    refine ⟨t₂, u₂, a + b, fun w => ?_, fun r => ?_, hs⟩
    · rw [hw, hw₂, add_assoc]
    · rw [map_add, add_assoc, hrd, hrd₂]

/-- Nothing is done. -/
theorem Lockstep.refl : Lockstep deliver R R (.ok (ε := ε)) .ok (.ok (ε := ε')) :=
  fun _ _ _ => .ok

theorem Lockstep.bind (h₁ : Lockstep deliver R R₁ direct₁ produce₁ consume₁)
    (h₂ : Lockstep deliver R₁ R₂ direct₂ produce₂ consume₂) :
    Lockstep deliver R R₂ (fun s => direct₁ s >>= direct₂) (fun s => produce₁ s >>= produce₂)
      (fun s => consume₁ s >>= consume₂) := by
  intro s t u hr
  have hs := h₁ s t u hr
  cases hd : direct₁ s with
  | error e =>
    rw [hd] at hs
    show Follows _ _ _ _ t u (direct₁ s >>= direct₂)
    rw [hd]
    intro w
    show produce₁ (t, w) >>= produce₂ = _
    rw [hs w]
    rfl
  | ok s₁ =>
    rw [hd] at hs
    obtain ⟨t₁, u₁, a, hw, hrd, hr₁⟩ := hs
    have hs₁ := h₂ s₁ t₁ u₁ hr₁
    show Follows _ _ _ _ t u (direct₁ s >>= direct₂)
    rw [hd]
    show Follows _ _ _ _ t u (direct₂ s₁)
    cases hd₂ : direct₂ s₁ with
    | error e =>
      rw [hd₂] at hs₁
      intro w
      show produce₁ (t, w) >>= produce₂ = _
      rw [hw w]
      exact hs₁ _
    | ok s₂ =>
      rw [hd₂] at hs₁
      obtain ⟨t₂, u₂, b, hw₂, hrd₂, hr₂⟩ := hs₁
      exact ⟨t₂, u₂, a + b, hw.bind hw₂, by rw [map_add]; exact hrd.bind hrd₂, hr₂⟩

/-- Two halves of a loop: the relation may depend on what is left of the list. -/
theorem Lockstep.foldlM {R : List ι → σ → τ → υ → Prop} {direct : σ → ι → Except ε σ}
    {produce : τ × Q → ι → Except ε (τ × Q)} {consume : υ × Q' → ι → Except ε' (υ × Q')}
    (l : List ι) (h : ∀ i l', Lockstep deliver (R (i :: l')) (R l') (fun s => direct s i)
      (fun s => produce s i) (fun s => consume s i)) :
    Lockstep deliver (R l) (R []) (fun s => l.foldlM direct s) (fun s => l.foldlM produce s)
      (fun s => l.foldlM consume s) := by
  induction l with
  | nil => exact .refl
  | cons i l ih =>
    simp only [List.foldlM_cons]
    exact (h i l).bind ih

/-- The same for a loop that cannot fail, with a relation that each of its steps keeps. -/
theorem Lockstep.foldl {direct : σ → ι → σ} {produce : τ × Q → ι → τ × Q}
    {consume : υ × Q' → ι → Except ε' (υ × Q')} (l : List ι)
    (h : ∀ i, Lockstep deliver R R (fun s => .ok (ε := ε) (direct s i))
      (fun s => .ok (produce s i)) (fun s => consume s i)) :
    Lockstep deliver R R (fun s => .ok (ε := ε) (l.foldl direct s))
      (fun s => .ok (l.foldl produce s)) (fun s => l.foldlM consume s) := by
  induction l with
  | nil => exact .refl
  | cons i l ih =>
    simp only [List.foldlM_cons]
    exact (h i).bind ih

end Outcome
