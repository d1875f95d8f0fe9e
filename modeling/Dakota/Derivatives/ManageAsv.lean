import Dakota.Derivatives.Steps
import Dakota.Lib.Outcome

/-!
# Requests for derivative estimation

`Model::manage_asv` (`src/src/DakotaModel.cpp`): the request of an evaluation is split into that of
the initial map, those of the finite difference evaluations, and the quasi-Hessians.

* `DiffSettings` has the responses specification, `DiffPoint` the point and the bounds that
  `initialize_x0_bounds` collects for the derivative variables.
* `FnSplit` has the outputs for one function. `manageAsv_getElem` is what they are; with
  `Short`, the request for `f(x0)` that short steps need.
-/

namespace Dakota.Derivatives

/-- `intervalType` -/
inductive IntervalType where
  | forward
  | central
deriving DecidableEq, Repr

/-- `gradientType` -/
inductive GradientType where
  | none
  | analytic
  | numerical
  | mixed
deriving DecidableEq, Repr

/-- `hessianType` -/
inductive HessianType where
  | none
  | analytic
  | numerical
  | quasi
  | mixed
deriving DecidableEq, Repr

/-- What `manage_asv` and `estimate_derivatives` read of the model. -/
structure DiffSettings (K : Type) where
  supportsEstimDerivs : Bool
  /-- `methodSource == "dakota"` -/
  dakotaSource : Bool
  /-- `surrogate_response_mode() == AUTO_CORRECTED_SURROGATE` -/
  autoCorrected : Bool
  gradientType : GradientType
  hessianType : HessianType
  gradIdAnalytic : List Nat
  gradIdNumerical : List Nat
  hessIdAnalytic : List Nat
  hessIdNumerical : List Nat
  hessIdQuasi : List Nat
  intervalType : IntervalType
  ignoreBounds : Bool
  centralHess : Bool
  fdGradStepSize : List K
  fdGradStepType : StepType
  fdHessByFnStepSize : List K
  fdHessByGradStepSize : List K
  fdHessStepType : StepType

namespace DiffSettings

variable {K : Type} (cfg : DiffSettings K) (i : Nat)

def analyticGradient : Bool :=
  cfg.gradientType = .analytic || (cfg.gradientType = .mixed && cfg.gradIdAnalytic.contains (i + 1))

def numericalGradient : Bool :=
  cfg.dakotaSource && (cfg.gradientType = .numerical ||
    (cfg.gradientType = .mixed && cfg.gradIdNumerical.contains (i + 1)))

def analyticHessian : Bool :=
  cfg.hessianType = .analytic || (cfg.hessianType = .mixed && cfg.hessIdAnalytic.contains (i + 1))

def numericalHessian : Bool :=
  cfg.hessianType = .numerical || (cfg.hessianType = .mixed && cfg.hessIdNumerical.contains (i + 1))

def quasiHessian : Bool :=
  cfg.hessianType = .quasi || (cfg.hessianType = .mixed && cfg.hessIdQuasi.contains (i + 1))

end DiffSettings

/-- The point, the position of each derivative variable in it, and the bounds of the derivative
variables. -/
structure DiffPoint (K : Type) (n m : Nat) where
  x0 : Fin n → K
  index : Fin m → Fin n
  lower : Fin m → Bound K
  upper : Fin m → Bound K
  index_injective : Function.Injective index

/-- Where `manage_asv` and `estimate_derivatives` end without a result. -/
inductive DerivError where
  /-- `received unsupported gradient request from ASV` -/
  | unsupportedGradient
  /-- `received unsupported Hessian request from ASV` -/
  | unsupportedHessian
  /-- A read beyond the step sizes. -/
  | noStepSize
  /-- A step relative to infinite bounds. -/
  | infiniteStep
deriving DecidableEq, Repr

def orError {α : Type} (e : DerivError) : Option α → Except DerivError α
  | some a => .ok a
  | none => .error e

/-- A part of the code under a condition. -/
def runIf {σ : Type} (cond : Prop) [Decidable cond] (f : σ → Except DerivError σ) (s : σ) :
    Except DerivError σ :=
  if cond then f s else .ok s

variable {K : Type} [Field K] [LinearOrder K] {n m : Nat} (cfg : DiffSettings K)
  (p : DiffPoint K n m)

/-- `fd_lb[j]`; the bounds are infinite if they are ignored. -/
def fdLower (j : Fin m) : Bound K := if cfg.ignoreBounds then .negInf else p.lower j

/-- `fd_ub[j]` -/
def fdUpper (j : Fin m) : Bound K := if cfg.ignoreBounds then .posInf else p.upper j

/-- The first step of variable `j`, with the flag that it leaves. -/
def firstStep (stepSizes : List K) (factor : K) (stepType : StepType) (j : Fin m) :
    Except DerivError (K × Bool) := do
  let x := p.x0 (p.index j)
  let stepSize ← orError .noStepSize (stepSizeOf stepSizes m (p.index j))
  let hMag ← orError .infiniteStep
    (initializeH x (fdLower cfg p j) (fdUpper cfg p j) (factor * stepSize) stepType)
  return fdStep1 cfg.ignoreBounds x (fdLower cfg p j) (fdUpper cfg p j) hMag

/-- The second step of variable `j`, after a first one. -/
def secondStep (first : K × Bool) (j : Fin m) : K × Bool :=
  fdStep2 cfg.ignoreBounds first.2 (p.x0 (p.index j)) (fdLower cfg p j) (fdUpper cfg p j) first.1

/-- `forward_grad_step` -/
def forwardGradStep (j : Fin m) : Except DerivError (K × Bool) :=
  firstStep cfg p cfg.fdGradStepSize 1 cfg.fdGradStepType j

/-- `shortStep` after the steps of variable `j` -/
def gradShortStep (j : Fin m) : Except DerivError Bool := do
  let first ← forwardGradStep cfg p j
  return if cfg.intervalType = .central then (secondStep cfg p first j).2 else first.2

/-- The outputs of `manage_asv` for one function. -/
structure FnSplit where
  map : Nat := 0
  fdGrad : Nat := 0
  fdHess : Nat := 0
  quasiHess : Nat := 0
  useEstDeriv : Bool := false
deriving DecidableEq, Repr

instance inhabitedFnSplit : Inhabited FnSplit := ⟨{}⟩

/-- Where the gradient of function `i` is from. -/
def gradientSource (i : Nat) (s : FnSplit) : Except DerivError FnSplit :=
  if cfg.analyticGradient i then .ok { s with map := s.map ||| 2 }
  else if cfg.numericalGradient i then
    .ok { s with
      fdGrad := 1
      map := if cfg.intervalType = .forward then s.map ||| 1 else s.map
      useEstDeriv := true }
  else .error .unsupportedGradient

/-- The gradient request of function `i`. -/
def splitGradient (i : Nat) (s : FnSplit) : Except DerivError FnSplit := do
  let s ← gradientSource cfg i s
  return if !cfg.autoCorrected && cfg.quasiHessian i then { s with useEstDeriv := true } else s

/-- The Hessian request of function `i`. -/
def splitHessian (i : Nat) (s : FnSplit) : Except DerivError FnSplit :=
  if cfg.analyticHessian i then .ok { s with map := s.map ||| 4 }
  else if cfg.numericalHessian i then
    if cfg.analyticGradient i then
      .ok { s with fdHess := 2, map := s.map ||| 2, useEstDeriv := true }
    else .ok { s with fdHess := 1, map := s.map ||| 1, useEstDeriv := true }
  else if cfg.quasiHessian i then .ok { s with quasiHess := 2, useEstDeriv := true }
  else .error .unsupportedHessian

/-- The request of function `i`. -/
def splitFunction (i asv : Nat) : Except DerivError FnSplit := do
  let s ← runIf (asv &&& 2 ≠ 0) (splitGradient cfg i) { map := if asv &&& 1 ≠ 0 then 1 else 0 }
  runIf (asv &&& 4 ≠ 0) (splitHessian cfg i) s

/-- The `f(x0)` requests needed for short steps. -/
def FnSplit.addShort (s : FnSplit) : FnSplit :=
  if s.fdGrad &&& 1 ≠ 0 then { s with map := s.map ||| 1 } else s

/-- Whether a step of any derivative variable is short. -/
def anyShortStep : Except DerivError Bool := do
  let shorts ← (List.finRange m).mapM (gradShortStep cfg p)
  return shorts.any id

/-- `manage_asv`; the result `use_est_deriv` is that of any function. -/
def manageAsv (asv : List Nat) : Except DerivError (List FnSplit) :=
  if cfg.supportsEstimDerivs then do
    let splits ← asv.zipIdx.mapM fun a => splitFunction cfg a.2 a.1
    if splits.any (fun s => s.fdGrad ≠ 0) ∧ !cfg.ignoreBounds then do
      let shortStep ← anyShortStep cfg p
      return if shortStep then splits.map FnSplit.addShort else splits
    else return splits
  else .ok (asv.map fun _ => {})

/-! ## What is requested -/

variable {cfg} {p} {i asv : Nat} {s s' : FnSplit} {asvIn : List Nat} {splits : List FnSplit}

omit [Field K] [LinearOrder K] in
theorem splitGradient_cases (h : splitGradient cfg i s = .ok s') :
    s'.fdHess = s.fdHess ∧ s'.quasiHess = s.quasiHess ∧
      ((s'.fdGrad = s.fdGrad ∧ s'.map = s.map ||| 2) ∨
        (s'.fdGrad = 1 ∧
          s'.map = if cfg.intervalType = .forward then s.map ||| 1 else s.map)) := by
  obtain ⟨s₁, hs₁, h⟩ := Outcome.bind_eq_ok.mp h
  cases h
  have hs₁' : s₁.fdHess = s.fdHess ∧ s₁.quasiHess = s.quasiHess ∧
      ((s₁.fdGrad = s.fdGrad ∧ s₁.map = s.map ||| 2) ∨ (s₁.fdGrad = 1 ∧
        s₁.map = if cfg.intervalType = .forward then s.map ||| 1 else s.map)) := by
    unfold gradientSource at hs₁
    split at hs₁
    · cases hs₁
      exact ⟨rfl, rfl, .inl ⟨rfl, rfl⟩⟩
    · split at hs₁
      · cases hs₁
        exact ⟨rfl, rfl, .inr ⟨rfl, rfl⟩⟩
      · cases hs₁
  split <;> exact hs₁'

omit [Field K] [LinearOrder K] in
theorem splitHessian_cases (h : splitHessian cfg i s = .ok s') :
    s'.fdGrad = s.fdGrad ∧
      ((s'.fdHess = s.fdHess ∧ s'.quasiHess = s.quasiHess ∧ s'.map = s.map ||| 4) ∨
        (s'.fdHess = 2 ∧ s'.quasiHess = s.quasiHess ∧ s'.map = s.map ||| 2) ∨
        (s'.fdHess = 1 ∧ s'.quasiHess = s.quasiHess ∧ s'.map = s.map ||| 1) ∨
        (s'.fdHess = s.fdHess ∧ s'.map = s.map)) := by
  unfold splitHessian at h
  split at h
  · cases h
    exact ⟨rfl, .inl ⟨rfl, rfl, rfl⟩⟩
  · split at h
    · split at h
      · cases h
        exact ⟨rfl, .inr (.inl ⟨rfl, rfl, rfl⟩)⟩
      · cases h
        exact ⟨rfl, .inr (.inr (.inl ⟨rfl, rfl, rfl⟩))⟩
    · split at h
      · cases h
        exact ⟨rfl, .inr (.inr (.inr ⟨rfl, rfl⟩))⟩
      · cases h

/-- What the finite differences of a function rely on. -/
structure FnSplit.Consistent (central : Bool) (asv : Nat) (s : FnSplit) : Prop where
  grad : s.fdGrad ≠ 0 → s.fdGrad = 1 ∧ asv &&& 2 ≠ 0 ∧ (central = false → s.map &&& 1 ≠ 0)
  hess : s.fdHess ≠ 0 → (s.fdHess = 1 ∨ s.fdHess = 2) ∧ asv &&& 4 ≠ 0 ∧ s.quasiHess = 0
  byFn : s.fdHess = 1 → s.map &&& 1 ≠ 0
  byGrad : s.fdHess = 2 → s.map &&& 2 ≠ 0

theorem or_and_ne_zero_left {a b c : Nat} (h : a &&& c ≠ 0) : (a ||| b) &&& c ≠ 0 := by
  rw [Nat.and_or_distrib_right, ne_eq, Nat.or_eq_zero_iff]
  exact fun h0 => h h0.1

theorem or_and_ne_zero_right {a b c : Nat} (h : b &&& c ≠ 0) : (a ||| b) &&& c ≠ 0 := by
  rw [Nat.or_comm]
  exact or_and_ne_zero_left h

omit [Field K] [LinearOrder K] in
theorem splitFunction_consistent (h : splitFunction cfg i asv = .ok s) :
    s.Consistent (cfg.intervalType = .central) asv := by
  obtain ⟨s₁, hs₁, h⟩ := Outcome.bind_eq_ok.mp h
  -- after the gradient request
  have hgrad : s₁.fdHess = 0 ∧ s₁.quasiHess = 0 ∧ (s₁.fdGrad ≠ 0 → s₁.fdGrad = 1 ∧ asv &&& 2 ≠ 0 ∧
      ((cfg.intervalType = .central : Bool) = false → s₁.map &&& 1 ≠ 0)) := by
    unfold runIf at hs₁
    split at hs₁
    case isTrue hasv =>
      obtain ⟨hh, hq, ⟨hg, -⟩ | ⟨hg, hmap⟩⟩ := splitGradient_cases hs₁
      · exact ⟨hh, hq, fun h0 => (h0 hg).elim⟩
      · refine ⟨hh, hq, fun _ => ⟨hg, hasv, fun hcentral => ?_⟩⟩
        have hforward : cfg.intervalType = .forward := by
          cases hi : cfg.intervalType with
          | forward => rfl
          | central => simp [hi] at hcentral
        rw [hmap, if_pos hforward]
        exact or_and_ne_zero_right (by decide)
    case isFalse =>
      cases hs₁
      exact ⟨rfl, rfl, fun h0 => (h0 rfl).elim⟩
  obtain ⟨hh₁, hq₁, hg₁⟩ := hgrad
  unfold runIf at h
  split at h
  case isFalse =>
    cases h
    exact ⟨hg₁, fun h0 => (h0 hh₁).elim, fun h1 => by simp [hh₁] at h1,
      fun h2 => by simp [hh₁] at h2⟩
  case isTrue hasv =>
    obtain ⟨hg, hcases⟩ := splitHessian_cases h
    rw [← hg] at hg₁
    have hmap : ∀ b, s.map = s₁.map ||| b ∨ s.map = s₁.map → s.fdGrad ≠ 0 → s.fdGrad = 1 ∧
        asv &&& 2 ≠ 0 ∧ ((cfg.intervalType = .central : Bool) = false → s.map &&& 1 ≠ 0) := by
      intro b hb h0
      obtain ⟨h1, h2, h3⟩ := hg₁ h0
      refine ⟨h1, h2, fun hc => ?_⟩
      rcases hb with hb | hb
      · rw [hb]
        exact or_and_ne_zero_left (h3 hc)
      · rw [hb]
        exact h3 hc
    rcases hcases with ⟨hh, hq, hm⟩ | ⟨hh, hq, hm⟩ | ⟨hh, hq, hm⟩ | ⟨hh, hm⟩
    · rw [hh₁] at hh
      exact ⟨hmap 4 (.inl hm), fun h0 => (h0 hh).elim, fun h1 => by simp [hh] at h1,
        fun h2 => by simp [hh] at h2⟩
    · exact ⟨hmap 2 (.inl hm), fun _ => ⟨.inr hh, hasv, hq.trans hq₁⟩,
        fun h1 => by simp [hh] at h1, fun _ => hm ▸ or_and_ne_zero_right (by decide)⟩
    · exact ⟨hmap 1 (.inl hm), fun _ => ⟨.inl hh, hasv, hq.trans hq₁⟩,
        fun _ => hm ▸ or_and_ne_zero_right (by decide), fun h2 => by simp [hh] at h2⟩
    · rw [hh₁] at hh
      exact ⟨hmap 0 (.inr hm), fun h0 => (h0 hh).elim, fun h1 => by simp [hh] at h1,
        fun h2 => by simp [hh] at h2⟩

theorem FnSplit.Consistent.addShort {central : Bool} (h : s.Consistent central asv) :
    s.addShort.Consistent central asv := by
  unfold FnSplit.addShort
  split
  · exact ⟨fun h0 => ⟨(h.grad h0).1, (h.grad h0).2.1,
        fun hc => or_and_ne_zero_left ((h.grad h0).2.2 hc)⟩, h.hess,
      fun h1 => or_and_ne_zero_left (h.byFn h1), fun h2 => or_and_ne_zero_left (h.byGrad h2)⟩
  · exact h

/-- The two passes of `manage_asv`. -/
theorem manageAsv_eq_ok (h : manageAsv cfg p asvIn = .ok splits) :
    splits = asvIn.map (fun _ => {}) ∨
      ∃ splits₁, asvIn.zipIdx.mapM (fun a => splitFunction cfg a.2 a.1) = .ok splits₁ ∧
        ((splits = splits₁ ∧ (splits₁.any (fun s => s.fdGrad ≠ 0) → cfg.ignoreBounds = false →
            anyShortStep cfg p = .ok false)) ∨
          splits = splits₁.map FnSplit.addShort) := by
  unfold manageAsv at h
  split at h
  · right
    obtain ⟨splits₁, hs₁, h⟩ := Outcome.bind_eq_ok.mp h
    refine ⟨splits₁, hs₁, ?_⟩
    split at h
    case isTrue hc =>
      obtain ⟨short, hshort, h⟩ := Outcome.bind_eq_ok.mp h
      cases h
      cases short with
      | false => exact .inl ⟨rfl, fun _ _ => hshort⟩
      | true => exact .inr rfl
    case isFalse hc =>
      cases h
      exact .inl ⟨rfl, fun hany hb => (hc ⟨hany, by rw [hb]; rfl⟩).elim⟩
  · cases h
    exact .inl rfl

omit [Field K] [LinearOrder K] in
theorem default_consistent : ({} : FnSplit).Consistent (cfg.intervalType = .central) asv where
  grad h := (h rfl).elim
  hess h := (h rfl).elim
  byFn h := by cases h
  byGrad h := by cases h

theorem getD_map_default {f : FnSplit → FnSplit} (hf : f {} = {}) (i : Nat) :
    (splits.map f).getD i {} = f (splits.getD i {}) := by
  rw [List.getD_eq_getElem?_getD, List.getElem?_map, List.getD_eq_getElem?_getD]
  cases splits[i]? with
  | none => exact hf.symm
  | some s => rfl

theorem getD_map_const (i : Nat) : (asvIn.map fun _ => ({} : FnSplit)).getD i {} = {} := by
  rw [List.getD_eq_getElem?_getD, List.getElem?_map]
  cases asvIn[i]? <;> rfl

omit [Field K] [LinearOrder K] in
theorem mapM_splitFunction_consistent
    (h : asvIn.zipIdx.mapM (fun a => splitFunction cfg a.2 a.1) = .ok splits) (i : Nat) :
    (splits.getD i {}).Consistent (cfg.intervalType = .central) (asvIn.getD i 0) := by
  rw [Outcome.mapM_eq_ok, List.forall₂_iff_get] at h
  obtain ⟨hlen, h⟩ := h
  rw [List.length_zipIdx] at hlen
  by_cases hi : i < asvIn.length
  · have := h i (by simpa using hi) (hlen ▸ hi)
    simp only [List.get_eq_getElem, List.getElem_zipIdx, Nat.zero_add] at this
    rw [List.getD_eq_getElem _ _ hi, List.getD_eq_getElem _ _ (hlen ▸ hi)]
    exact splitFunction_consistent this
  · rw [List.getD_eq_default splits _ (hlen ▸ not_lt.mp hi)]
    exact default_consistent

/-- What `manage_asv` returns for each function. -/
theorem manageAsv_consistent (h : manageAsv cfg p asvIn = .ok splits) (i : Nat) :
    (splits.getD i {}).Consistent (cfg.intervalType = .central) (asvIn.getD i 0) := by
  obtain rfl | ⟨splits₁, hs₁, ⟨rfl, -⟩ | rfl⟩ := manageAsv_eq_ok h
  · rw [getD_map_const]
    exact default_consistent
  · exact mapM_splitFunction_consistent hs₁ i
  · rw [getD_map_default rfl]
    exact (mapM_splitFunction_consistent hs₁ i).addShort

omit [Field K] [LinearOrder K] in
/-- Gradients that are not analytic are differenced. -/
theorem splitFunction_fdGrad (h : splitFunction cfg i asv = .ok s) (hasv : asv &&& 2 ≠ 0)
    (hi : cfg.analyticGradient i = false) : s.fdGrad ≠ 0 := by
  obtain ⟨s₁, hs₁, h⟩ := Outcome.bind_eq_ok.mp h
  unfold runIf at hs₁ h
  rw [if_pos hasv] at hs₁
  obtain ⟨s₂, hs₂, hs₁⟩ := Outcome.bind_eq_ok.mp hs₁
  have hone : s₂.fdGrad = 1 := by
    unfold gradientSource at hs₂
    rw [if_neg (by rw [hi]; exact Bool.false_ne_true)] at hs₂
    split at hs₂ <;> cases hs₂
    rfl
  have hone₁ : s₁.fdGrad = 1 := by
    cases hs₁
    split <;> exact hone
  split at h
  · rw [(splitHessian_cases h).1, hone₁]
    exact one_ne_zero
  · cases h
    rw [hone₁]
    exact one_ne_zero

omit [Field K] [LinearOrder K] in
/-- Numerical Hessians are differenced. -/
theorem splitFunction_fdHess (h : splitFunction cfg i asv = .ok s) (hasv : asv &&& 4 ≠ 0)
    (hi : cfg.analyticHessian i = false) (hnum : cfg.numericalHessian i = true) :
    s.fdHess ≠ 0 := by
  obtain ⟨s₁, -, h⟩ := Outcome.bind_eq_ok.mp h
  unfold runIf splitHessian at h
  rw [if_pos hasv, if_neg (by rw [hi]; exact Bool.false_ne_true), if_pos hnum] at h
  split at h <;> cases h
  · exact two_ne_zero
  · exact one_ne_zero

/-- What holds of the outputs for each function, and is not changed by short steps. -/
theorem manageAsv_of_splitFunction {P : FnSplit → Prop} (h : manageAsv cfg p asvIn = .ok splits)
    (hsupports : cfg.supportsEstimDerivs = true) (hi : i < asvIn.length)
    (hP : ∀ s, splitFunction cfg i (asvIn.getD i 0) = .ok s → P s ∧ P s.addShort) :
    P (splits.getD i {}) := by
  have hfirst (splits₁ : List FnSplit)
      (hs₁ : asvIn.zipIdx.mapM (fun a => splitFunction cfg a.2 a.1) = .ok splits₁) :
      P (splits₁.getD i {}) ∧ P (splits₁.getD i {}).addShort := by
    rw [Outcome.mapM_eq_ok, List.forall₂_iff_get] at hs₁
    obtain ⟨hlen, hs₁⟩ := hs₁
    rw [List.length_zipIdx] at hlen
    have := hs₁ i (by simpa using hi) (hlen ▸ hi)
    simp only [List.get_eq_getElem, List.getElem_zipIdx, Nat.zero_add] at this
    rw [List.getD_eq_getElem _ _ (hlen ▸ hi)]
    refine hP _ ?_
    rw [List.getD_eq_getElem _ _ hi]
    exact this
  unfold manageAsv at h
  rw [if_pos hsupports] at h
  obtain ⟨splits₁, hs₁, h⟩ := Outcome.bind_eq_ok.mp h
  split at h
  · obtain ⟨short, -, h⟩ := Outcome.bind_eq_ok.mp h
    cases h
    cases short with
    | false => exact (hfirst splits₁ hs₁).1
    | true =>
      rw [if_pos rfl, getD_map_default rfl]
      exact (hfirst splits₁ hs₁).2
  · cases h
    exact (hfirst splits hs₁).1

theorem lt_length_of_and_ne_zero {bits : Nat} (h : asvIn.getD i 0 &&& bits ≠ 0) :
    i < asvIn.length := by
  by_contra hi
  rw [List.getD_eq_default _ _ (not_lt.mp hi), Nat.zero_and] at h
  exact h rfl

theorem manageAsv_fdGrad (h : manageAsv cfg p asvIn = .ok splits)
    (hsupports : cfg.supportsEstimDerivs = true) (hasv : asvIn.getD i 0 &&& 2 ≠ 0)
    (hi : cfg.analyticGradient i = false) : (splits.getD i {}).fdGrad ≠ 0 := by
  refine manageAsv_of_splitFunction (P := fun s => s.fdGrad ≠ 0) h hsupports
    (lt_length_of_and_ne_zero hasv) fun s hs => ?_
  have hne := splitFunction_fdGrad hs hasv hi
  refine ⟨hne, ?_⟩
  unfold FnSplit.addShort
  split <;> exact hne

theorem manageAsv_fdHess (h : manageAsv cfg p asvIn = .ok splits)
    (hsupports : cfg.supportsEstimDerivs = true) (hasv : asvIn.getD i 0 &&& 4 ≠ 0)
    (hi : cfg.analyticHessian i = false) (hnum : cfg.numericalHessian i = true) :
    (splits.getD i {}).fdHess ≠ 0 := by
  refine manageAsv_of_splitFunction (P := fun s => s.fdHess ≠ 0) h hsupports
    (lt_length_of_and_ne_zero hasv) fun s hs => ?_
  have hne := splitFunction_fdHess hs hasv hi hnum
  refine ⟨hne, ?_⟩
  unfold FnSplit.addShort
  split <;> exact hne

/-- A short step of one variable. -/
theorem anyShortStep_ne_false {j : Fin m} (hj : gradShortStep cfg p j = .ok true) :
    anyShortStep cfg p ≠ .ok false := by
  intro h
  obtain ⟨shorts, hm, h⟩ := Outcome.bind_eq_ok.mp h
  rw [Outcome.mapM_eq_ok, List.forall₂_iff_get] at hm
  obtain ⟨hlen, hm⟩ := hm
  rw [List.length_finRange] at hlen
  have := hm j (by simp) (hlen ▸ j.2)
  simp only [List.get_eq_getElem, List.getElem_finRange] at this
  change gradShortStep cfg p j = _ at this
  rw [hj] at this
  injection this with this
  have hany : shorts.any id = true := List.any_eq_true.mpr ⟨_, List.getElem_mem _, this.symm⟩
  rw [hany] at h
  cases h

/-- A short step of any variable requests the values at `x0` of all functions that are
differenced. -/
theorem manageAsv_short (h : manageAsv cfg p asvIn = .ok splits) (hb : cfg.ignoreBounds = false)
    {j : Fin m} (hj : gradShortStep cfg p j = .ok true) (i : Nat)
    (hi : (splits.getD i {}).fdGrad ≠ 0) : (splits.getD i {}).map &&& 1 ≠ 0 := by
  obtain rfl | ⟨splits₁, hs₁, ⟨rfl, hshort⟩ | rfl⟩ := manageAsv_eq_ok h
  · rw [getD_map_const] at hi
    exact (hi rfl).elim
  · refine (anyShortStep_ne_false hj (hshort ?_ hb)).elim
    have hlt : i < splits.length := by
      by_contra hlt
      rw [List.getD_eq_default _ _ (not_lt.mp hlt)] at hi
      exact hi rfl
    rw [List.getD_eq_getElem _ _ hlt] at hi
    exact List.any_eq_true.mpr ⟨_, List.getElem_mem hlt, by simpa using hi⟩
  · have hc := mapM_splitFunction_consistent hs₁ i
    rw [getD_map_default rfl] at hi ⊢
    generalize splits₁.getD i {} = s at hi hc ⊢
    have hne : s.fdGrad ≠ 0 := by
      unfold FnSplit.addShort at hi
      split at hi <;> exact hi
    unfold FnSplit.addShort
    rw [if_pos (by rw [(hc.grad hne).1]; decide)]
    exact or_and_ne_zero_right (by decide)

end Dakota.Derivatives
