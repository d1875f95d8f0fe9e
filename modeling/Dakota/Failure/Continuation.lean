import Dakota.Lib.Numerals
import Mathlib

/-!
# Continuation after a failed evaluation

`ApplicationInterface::continuation`, and the branch of `manage_failure` that calls it
(`src/src/ApplicationInterface.cpp`): the target point is approached from a source point, with steps
that are halved after each failure.

* The arithmetic is exact. The outcome of call `i` of `derived_map` is `success i`.
* `ContState.Approach` is the invariant: the remaining distance is a multiple of the step, the same
  one in all components but for those that were snapped to the target.
* `approach_halve` and `approach_advance` are its steps, `continueFrom_ends` the measure: with `k`
  steps to go and `b` failures left, there are at most `(k + 2) * 2 ^ b` calls.
-/

namespace Dakota.Failure

variable {K : Type} [Field K] [LinearOrder K] {n : Nat}

/-- `MAX_FAILURES` -/
def maxFailures : Nat := 10

/-- `EPS`, the single precision number nearest to `1.0e-10`. -/
def eps : K := 14411519 / 2 ^ 57

/-- One call of `derived_map`: the point, the step that is current, and whether it succeeded. -/
structure MapCall (K : Type) (n : Nat) where
  point : Fin n → K
  delta : Fin n → K
  success : Bool

/-- The local variables of `continuation`, and the calls so far. -/
structure ContState (K : Type) (n : Nat) where
  currentPt : Fin n → K
  delta : Fin n → K
  failures : Nat
  calls : List (MapCall K n)

inductive ContEnd where
  | targetReached
  /-- `Interval halving limit exceeded in continuation` -/
  | aborted
deriving DecidableEq, Repr

/-- `std::fabs(1.0 - current_pt[i]/target_pt[i]) < EPS`; a quotient by zero is not finite, and the
comparison fails. -/
def snaps (c t : K) : Prop := t ≠ 0 ∧ |1 - c / t| < eps

instance decidableSnaps (c t : K) : Decidable (snaps c t) :=
  inferInstanceAs (Decidable (t ≠ 0 ∧ |1 - c / t| < eps))

/-- `derived_map` at the current point. -/
def ContState.derivedMap (s : ContState K n) (success : Bool) : ContState K n :=
  { s with calls := s.calls ++ [⟨s.currentPt, s.delta, success⟩] }

/-- A half-step back from the failed current point. -/
def ContState.halve (s : ContState K n) : ContState K n :=
  { s with
    delta := fun i => s.delta i / 2
    currentPt := fun i => s.currentPt i - s.delta i / 2 }

/-- A step, with the components near the target set to it. -/
def ContState.advance (target : Fin n → K) (s : ContState K n) : ContState K n :=
  { s with
    currentPt := fun i =>
      let c := s.currentPt i + s.delta i
      if snaps c (target i) then target i else c }

/-- Half the distance to the target is the first step. -/
def initialState (source target : Fin n → K) : ContState K n where
  currentPt i := source i + (target i - source i) / 2
  delta i := (target i - source i) / 2
  failures := 1
  calls := []

/-- The loop of `continuation`, for at most `fuel` iterations. -/
def continueFrom (target : Fin n → K) (success : Nat → Bool) :
    Nat → ContState K n → Option (ContEnd × ContState K n)
  | 0, _ => none
  | fuel + 1, s =>
    let ok := success s.calls.length
    let s := s.derivedMap ok
    if ok then
      if s.currentPt = target then some (.targetReached, s)
      else continueFrom target success fuel (s.advance target)
    else
      let s := { s with failures := s.failures + 1 }
      if maxFailures < s.failures then some (.aborted, s)
      else continueFrom target success fuel s.halve

/-- `continuation` -/
def continuation (source target : Fin n → K) (success : Nat → Bool) (fuel : Nat) :
    Option (ContEnd × ContState K n) :=
  continueFrom target success fuel (initialState source target)

/-- `manage_failure` for continuation, with the points in `data_pairs`: `get_source_pair` returns
the last of them, and aborts if there is none. -/
def manageFailure (dataPairs : List (Fin n → K)) (target : Fin n → K) (success : Nat → Bool)
    (fuel : Nat) : Option (ContEnd × ContState K n) :=
  match dataPairs.getLast? with
  | some source => continuation source target success fuel
  | none => some (.aborted, ⟨target, 0, 1, []⟩)

/-! ## The approach to the target -/

variable {source target : Fin n → K} {s : ContState K n} {k : Nat} {d : K} {success : Nat → Bool}

/-- Step `d` of the distance is `1 / (k + 1)` of it at most. In each component the target is a
number of steps away, `k` of them or, once the steps are small, fewer. -/
structure ContState.Approach (source target : Fin n → K) (k : Nat) (d : K) (s : ContState K n) :
    Prop where
  pos : 0 < d
  le_one : (k + 1) * d ≤ 1
  delta_eq : ∀ i, s.delta i = d * (target i - source i)
  steps : ∀ i, ∃ j : Nat, j ≤ k ∧ target i - s.currentPt i = j * s.delta i ∧
    (j ≠ k → |s.delta i| < eps * |target i|)

/-- What is known of the calls. -/
def GoodCall (source target : Fin n → K) (call : MapCall K n) : Prop :=
  ∀ i, call.point i ∈ Set.uIcc (source i) (target i) ∧
    ∃ j : Nat, target i - call.point i = j * call.delta i

variable [IsStrictOrderedRing K]

theorem eps_pos : (0 : K) < eps := by
  unfold eps
  positivity

theorem approach_initial : (initialState source target).Approach source target 1 (1 / 2) where
  pos := by norm_num
  le_one := by norm_num
  delta_eq i := by
    change (target i - source i) / 2 = _
    ring
  steps i := by
    refine ⟨1, le_rfl, ?_, fun h => (h rfl).elim⟩
    change target i - (source i + (target i - source i) / 2) = (1 : ℕ) * ((target i - source i) / 2)
    push_cast
    ring

/-- After a failure. -/
theorem approach_halve (h : s.Approach source target k d) :
    s.halve.Approach source target (2 * k + 1) (d / 2) where
  pos := half_pos h.pos
  le_one := by
    have := h.le_one
    push_cast
    linarith
  delta_eq i := by
    change s.delta i / 2 = _
    rw [h.delta_eq]
    ring
  steps i := by
    obtain ⟨j, hj, heq, hsmall⟩ := h.steps i
    refine ⟨2 * j + 1, by omega, ?_, fun hne => ?_⟩
    · change target i - (s.currentPt i - s.delta i / 2) = _ * (s.delta i / 2)
      push_cast
      linarith
    · have hlt := hsmall (by omega)
      change |s.delta i / 2| < _
      rw [abs_div, abs_two]
      have := abs_nonneg (s.delta i)
      linarith

/-- A point that is some steps away from the target snaps to it if the steps are small enough. -/
theorem snaps_iff {c t δ : K} {j : ℤ} (h : t - c = j * δ) :
    snaps c t ↔ t ≠ 0 ∧ |(j : K)| * |δ| < eps * |t| := by
  unfold snaps
  refine and_congr_right fun ht => ?_
  have hquot : 1 - c / t = j * δ / t := by
    rw [← h]
    field_simp
  rw [hquot, abs_div, abs_mul, div_lt_iff₀ (abs_pos.mpr ht)]

/-- After a success. -/
theorem approach_advance (h : s.Approach source target (k + 1) d) :
    (s.advance target).Approach source target k d where
  pos := h.pos
  le_one := by
    have := h.le_one
    have := h.pos
    push_cast at *
    linarith
  delta_eq := h.delta_eq
  steps i := by
    obtain ⟨j, hj, heq, hsmall⟩ := h.steps i
    have hnext : target i - (s.currentPt i + s.delta i) = ((j : ℤ) - 1 : ℤ) * s.delta i := by
      push_cast
      linarith
    by_cases hsnap : snaps (s.currentPt i + s.delta i) (target i)
    · -- the component is on the target, and the step is small
      refine ⟨0, by omega, ?_, fun hne => ?_⟩
      · change target i - (if _ then target i else _) = _
        rw [if_pos hsnap, Nat.cast_zero, zero_mul, sub_self]
      · by_cases hjk : j = k + 1
        · have hlt := ((snaps_iff hnext).mp hsnap).2
          have hone : (1 : K) ≤ |(((j : ℤ) - 1 : ℤ) : K)| := by
            rw [hjk]
            push_cast
            rw [add_sub_cancel_right, abs_of_nonneg (Nat.cast_nonneg k)]
            exact_mod_cast Nat.one_le_iff_ne_zero.mpr (Ne.symm hne)
          exact (le_mul_of_one_le_left (abs_nonneg _) hone).trans_lt hlt
        · exact hsmall hjk
    · cases j with
      | zero =>
        -- a component on the target goes a small step too far, and snaps
        refine (hsnap ((snaps_iff hnext).mpr ?_)).elim
        have hlt := hsmall (by omega)
        have ht : target i ≠ 0 := by
          intro h0
          rw [h0, abs_zero, mul_zero] at hlt
          exact (abs_nonneg _).not_gt hlt
        refine ⟨ht, ?_⟩
        simpa using hlt
      | succ j =>
        refine ⟨j, by omega, ?_, fun hne => hsmall (by omega)⟩
        change target i - (if _ then target i else _) = j * s.delta i
        rw [if_neg hsnap]
        push_cast at heq
        linarith

/-- The points of an approach are between source and target. -/
theorem goodCall_of_approach (h : s.Approach source target k d) (success : Bool) :
    GoodCall source target ⟨s.currentPt, s.delta, success⟩ := by
  intro i
  obtain ⟨j, hj, heq, -⟩ := h.steps i
  refine ⟨?_, j, heq⟩
  have hjd : (j : K) * d ≤ 1 := by
    have hjk : (j : K) ≤ k + 1 := by exact_mod_cast Nat.le_succ_of_le hj
    exact (mul_le_mul_of_nonneg_right hjk h.pos.le).trans h.le_one
  have hjd0 : 0 ≤ (j : K) * d := mul_nonneg (Nat.cast_nonneg j) h.pos.le
  rw [h.delta_eq i] at heq
  have hpt : s.currentPt i = target i - j * d * (target i - source i) := by linarith
  rw [Set.mem_uIcc]
  rcases le_total (source i) (target i) with hst | hst
  · left
    constructor <;> nlinarith
  · right
    constructor <;> nlinarith

omit [IsStrictOrderedRing K] in
/-- With no step to go, every component is on the target. -/
theorem currentPt_eq_of_approach (h : s.Approach source target 0 d) : s.currentPt = target := by
  funext i
  obtain ⟨j, hj, heq, -⟩ := h.steps i
  rw [Nat.le_zero.mp hj, Nat.cast_zero, zero_mul] at heq
  exact (sub_eq_zero.mp heq).symm

/-! ## The loop -/

/-- The calls before the last one: none has succeeded at the target. -/
structure GoodCalls (source target : Fin n → K) (s : ContState K n) : Prop where
  good : ∀ call ∈ s.calls, GoodCall source target call
  failures : s.failures = 1 + s.calls.countP (!·.success)
  notYet : ∀ call ∈ s.calls, ¬ (call.success = true ∧ call.point = target)

/-- How the loop ends: after a success at the target, or after too many failures. -/
def EndsWell (target : Fin n → K) (e : ContEnd) (s : ContState K n) : Prop :=
  ∃ before call, s.calls = before ++ [call] ∧
    (∀ c ∈ before, ¬ (c.success = true ∧ c.point = target)) ∧
    match e with
    | .targetReached => call.success = true ∧ call.point = target
    | .aborted => call.success = false ∧ maxFailures < s.failures

omit [IsStrictOrderedRing K] in
theorem ContState.Approach.derivedMap (h : s.Approach source target k d) (ok : Bool) :
    (s.derivedMap ok).Approach source target k d :=
  ⟨h.pos, h.le_one, h.delta_eq, h.steps⟩

omit [IsStrictOrderedRing K] in
/-- The count of failures does not matter. -/
theorem ContState.Approach.failed (h : s.Approach source target k d) (f : Nat) :
    ({ s with failures := f } : ContState K n).Approach source target k d :=
  ⟨h.pos, h.le_one, h.delta_eq, h.steps⟩

omit [IsStrictOrderedRing K] in
theorem GoodCalls.derivedMap (h : GoodCalls source target s) (ok : Bool)
    (hgood : GoodCall source target ⟨s.currentPt, s.delta, ok⟩) :
    (∀ call ∈ (s.derivedMap ok).calls, GoodCall source target call) ∧
      1 + (s.derivedMap ok).calls.countP (!·.success) =
        s.failures + if ok then 0 else 1 := by
  constructor
  · intro call hcall
    rcases List.mem_append.mp hcall with hcall | hcall
    · exact h.good call hcall
    · rw [List.mem_singleton.mp hcall]
      exact hgood
  · change 1 + (s.calls ++ [_]).countP _ = _
    rw [List.countP_append, List.countP_singleton, h.failures]
    cases ok with
    | true => simp
    | false => simp [Nat.add_assoc]

omit [IsStrictOrderedRing K] in
theorem GoodCalls.notYet_append (h : GoodCalls source target s) {call : MapCall K n}
    (hcall : ¬ (call.success = true ∧ call.point = target)) :
    ∀ c ∈ s.calls ++ [call], ¬ (c.success = true ∧ c.point = target) := by
  intro c hc
  rcases List.mem_append.mp hc with hc | hc
  · exact h.notYet c hc
  · rw [List.mem_singleton.mp hc]
    exact hcall

/-- With `k` steps to go and `b` failures left, the loop ends within `(k + 2) * 2 ^ b` calls. -/
theorem continueFrom_ends (success : Nat → Bool) {b fuel : Nat} (h : s.Approach source target k d)
    (hcalls : GoodCalls source target s) (hb : s.failures + b = maxFailures + 1) (hpos : 0 < b)
    (hfuel : (k + 2) * 2 ^ b ≤ fuel) :
    ∃ e s', continueFrom target success fuel s = some (e, s') ∧
      s'.calls.length ≤ s.calls.length + (k + 2) * 2 ^ b ∧
      (∀ call ∈ s'.calls, GoodCall source target call) ∧
      s'.failures = 1 + s'.calls.countP (!·.success) ∧ EndsWell target e s' := by
  induction fuel generalizing s k d b with
  | zero =>
    have : 0 < (k + 2) * 2 ^ b := by positivity
    omega
  | succ fuel ih =>
    have hgood := goodCall_of_approach h (success s.calls.length)
    obtain ⟨hall, hcount⟩ := hcalls.derivedMap _ hgood
    have hpow : 0 < 2 ^ b := by positivity
    have hcost : 0 < (k + 2) * 2 ^ b := by positivity
    have hlen (ok : Bool) : (s.derivedMap ok).calls.length = s.calls.length + 1 :=
      List.length_append
    unfold continueFrom
    cases hok : success s.calls.length with
    | true =>
      rw [hok] at hall hcount
      simp only [if_true]
      by_cases hreached : (s.derivedMap true).currentPt = target
      · rw [if_pos hreached]
        refine ⟨_, _, rfl, ?_, hall, hcount.symm, s.calls, _, rfl, hcalls.notYet, rfl, hreached⟩
        rw [hlen]
        omega
      · rw [if_neg hreached]
        cases k with
        | zero => exact (hreached (currentPt_eq_of_approach (h.derivedMap true))).elim
        | succ k =>
          have hstep : (k + 2) * 2 ^ b + 2 ^ b = (k + 1 + 2) * 2 ^ b := by ring
          obtain ⟨e, s', hrun, hle, hends⟩ := ih (s := (s.derivedMap true).advance target)
            (approach_advance (h.derivedMap true))
            ⟨hall, hcount.symm, hcalls.notYet_append fun hc => hreached hc.2⟩ hb hpos (by omega)
          refine ⟨e, s', hrun, hle.trans ?_, hends⟩
          change (s.derivedMap true).calls.length + _ ≤ _
          rw [hlen]
          omega
    | false =>
      rw [hok] at hall hcount
      simp only [Bool.false_eq_true, if_false]
      have hlast : ¬ ((⟨s.currentPt, s.delta, false⟩ : MapCall K n).success = true ∧
          s.currentPt = target) := fun hc => Bool.false_ne_true hc.1
      by_cases hmax : maxFailures < (s.derivedMap false).failures + 1
      · rw [if_pos hmax]
        refine ⟨_, _, rfl, ?_, hall, hcount.symm, s.calls, _, rfl, hcalls.notYet, rfl, hmax⟩
        change (s.derivedMap false).calls.length ≤ _
        rw [hlen]
        omega
      · rw [if_neg hmax]
        obtain ⟨b, rfl⟩ : ∃ b', b = b' + 1 := ⟨b - 1, by omega⟩
        have hb' : 0 < b := by
          have : (s.derivedMap false).failures = s.failures := rfl
          omega
        have hstep : (2 * k + 1 + 2) * 2 ^ b + 2 ^ b = (k + 2) * 2 ^ (b + 1) := by ring
        have hpow' : 0 < 2 ^ b := by positivity
        obtain ⟨e, s', hrun, hle, hends⟩ :=
          ih (s := { s.derivedMap false with failures := s.failures + 1 }.halve) (b := b)
            (approach_halve ((h.derivedMap false).failed _))
            ⟨hall, hcount.symm, hcalls.notYet_append hlast⟩ (by change s.failures + 1 + b = _; omega)
            hb' (by omega)
        refine ⟨e, s', hrun, hle.trans ?_, hends⟩
        change (s.derivedMap false).calls.length + _ ≤ _
        rw [hlen]
        omega

/-- The loop from the initial state. -/
theorem continuation_run (source target : Fin n → K) (success : Nat → Bool) {fuel : Nat}
    (hfuel : 3 * 2 ^ maxFailures ≤ fuel) :
    ∃ e s, continuation source target success fuel = some (e, s) ∧
      s.calls.length ≤ 3 * 2 ^ maxFailures ∧ (∀ call ∈ s.calls, GoodCall source target call) ∧
      s.failures = 1 + s.calls.countP (!·.success) ∧ EndsWell target e s := by
  have happroach : (initialState source target).Approach source target 1 (1 / 2) := approach_initial
  have hcalls : GoodCalls source target (initialState source target) :=
    ⟨fun _ h => (List.not_mem_nil h).elim, rfl, fun _ h => (List.not_mem_nil h).elim⟩
  have hb : (initialState source target).failures + maxFailures = maxFailures + 1 := rfl
  obtain ⟨e, s, hrun, hlen, hends⟩ :=
    continueFrom_ends success happroach hcalls hb (by decide) hfuel
  exact ⟨e, s, hrun, hlen.trans_eq (Nat.zero_add _), hends⟩

/-- Continuation ends: it makes at most `3 * 2 ^ 10` calls, and the last of them is a success at the
target, the first one there, or the failure beyond the limit. All points are between source and
target, and the target is a number of steps away from each. -/
theorem continuation_ends (source target : Fin n → K) (success : Nat → Bool) (fuel : Nat)
    (hfuel : 3 * 2 ^ maxFailures ≤ fuel) :
    ∃ e s, continuation source target success fuel = some (e, s) ∧
      s.calls.length ≤ 3 * 2 ^ maxFailures ∧
      s.failures = 1 + s.calls.countP (!·.success) ∧ EndsWell target e s ∧
      ∀ call ∈ s.calls, ∀ i, call.point i ∈ Set.uIcc (source i) (target i) ∧
        ∃ j : Nat, target i - call.point i = j * call.delta i := by
  obtain ⟨e, s, hrun, hlen, hgood, hcount, hends⟩ := continuation_run source target success hfuel
  exact ⟨e, s, hrun, hlen, hcount, hends, hgood⟩

/-- From `0` to `1`, without a failure. -/
theorem continuation_ends_unit :
    ∃ e s, continuation (fun _ : Fin 1 => (0 : ℚ)) (fun _ => 1) (fun _ => true)
        (3 * 2 ^ maxFailures) = some (e, s) ∧
      s.calls.length ≤ 3 * 2 ^ maxFailures ∧
      s.failures = 1 + s.calls.countP (!·.success) ∧ EndsWell (fun _ => 1) e s ∧
      ∀ call ∈ s.calls, ∀ i, call.point i ∈ Set.uIcc (0 : ℚ) 1 ∧
        ∃ j : Nat, 1 - call.point i = j * call.delta i :=
  continuation_ends _ _ _ _ le_rfl

/-- `manage_failure` ends in the same way, from any list of pairs. -/
theorem manageFailure_ends (dataPairs : List (Fin n → K)) (target : Fin n → K)
    (success : Nat → Bool) :
    ∃ e s, manageFailure dataPairs target success (3 * 2 ^ maxFailures) = some (e, s) ∧
      s.calls.length ≤ 3 * 2 ^ maxFailures ∧ (e = .targetReached → s.calls ≠ []) := by
  unfold manageFailure
  cases dataPairs.getLast? with
  | none => exact ⟨_, _, rfl, Nat.zero_le _, fun h => by cases h⟩
  | some source =>
    obtain ⟨e, s, hrun, hlen, -, -, before, call, hcalls, -⟩ :=
      continuation_run source target success le_rfl
    refine ⟨e, s, hrun, hlen, fun _ h => ?_⟩
    rw [h] at hcalls
    exact List.cons_ne_nil call [] (List.append_eq_nil_iff.mp hcalls.symm).2

end Dakota.Failure
