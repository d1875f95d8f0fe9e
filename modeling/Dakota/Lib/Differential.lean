import Dakota.Lib.Numerals
import Mathlib

/-!
# Gradients and Hessians as arrays

Derivatives of functions of finitely many real variables, as the arrays that numerical code returns.

* `HasGradAt f g x`: the array `g` holds the partial derivatives of `f` at `x`.
* `HasHessAt f grad hess x`: near `x` the arrays `grad` are the gradients of `f`, and the matrix `hess`
  holds their derivatives at `x`. `HasHessAt.unique`: there is one such matrix.
* `HasHessAt.comp`: the chain rule for a function of a real number that is `ScalarTwice` there.
* `ScalarTwice.of_gt`, `ScalarTwice.of_lt`: the derivatives of a function given in pieces.
-/

namespace Differential

open Filter Topology

variable {ι : Type*} [Fintype ι]

/-- The linear map with the given coefficients. -/
noncomputable def dotMap (g : ι → ℝ) : (ι → ℝ) →L[ℝ] ℝ :=
  ∑ j, g j • ContinuousLinearMap.proj (R := ℝ) (φ := fun _ : ι => ℝ) j

theorem dotMap_apply (g v : ι → ℝ) : dotMap g v = ∑ j, g j * v j := by
  simp [dotMap]

theorem dotMap_add (g g' : ι → ℝ) : dotMap (g + g') = dotMap g + dotMap g' := by
  ext v
  simp [dotMap_apply, add_mul, Finset.sum_add_distrib]

theorem dotMap_smul (c : ℝ) (g : ι → ℝ) : dotMap (c • g) = c • dotMap g := by
  ext v
  simp [dotMap_apply, Finset.mul_sum, mul_assoc]

theorem dotMap_neg (g : ι → ℝ) : dotMap (-g) = -dotMap g := by
  ext v
  simp [dotMap_apply]

theorem dotMap_zero : dotMap (0 : ι → ℝ) = 0 := by
  ext v
  simp [dotMap_apply]

theorem dotMap_injective : Function.Injective (dotMap (ι := ι)) := by
  classical
  intro g g' h
  funext j
  have hj := congrArg (fun l => l (Pi.single j 1)) h
  simpa [dotMap_apply, Pi.single_apply] using hj

/-! ## Gradients -/

def HasGradAt (f : (ι → ℝ) → ℝ) (g : ι → ℝ) (x : ι → ℝ) : Prop := HasFDerivAt f (dotMap g) x

section

variable {f f' : (ι → ℝ) → ℝ} {g g' x : ι → ℝ}

theorem HasGradAt.continuousAt (h : HasGradAt f g x) : ContinuousAt f x := HasFDerivAt.continuousAt h

theorem HasGradAt.unique (h : HasGradAt f g x) (h' : HasGradAt f g' x) : g = g' :=
  dotMap_injective (HasFDerivAt.unique h h')

theorem HasGradAt.congr (h : HasGradAt f g x) (heq : f' =ᶠ[𝓝 x] f) : HasGradAt f' g x :=
  HasFDerivAt.congr_of_eventuallyEq h heq

theorem HasGradAt.add (h : HasGradAt f g x) (h' : HasGradAt f' g' x) :
    HasGradAt (fun y => f y + f' y) (g + g') x := by
  unfold HasGradAt
  rw [dotMap_add]
  exact HasFDerivAt.add h h'

theorem hasGradAt_const (c : ℝ) : HasGradAt (fun _ => c) (0 : ι → ℝ) x := by
  unfold HasGradAt
  rw [dotMap_zero]
  exact hasFDerivAt_const c x

theorem HasGradAt.neg (h : HasGradAt f g x) : HasGradAt (fun y => -f y) (-g) x := by
  unfold HasGradAt
  rw [dotMap_neg]
  exact HasFDerivAt.neg h

theorem HasGradAt.add_const (h : HasGradAt f g x) (c : ℝ) : HasGradAt (fun y => f y + c) g x :=
  HasFDerivAt.add_const c h

/-- The chain rule for a function of a real number. -/
theorem HasGradAt.comp {θ : ℝ → ℝ} {slope : ℝ} (hθ : HasDerivAt θ slope (f x))
    (h : HasGradAt f g x) : HasGradAt (fun y => θ (f y)) (slope • g) x := by
  unfold HasGradAt
  rw [dotMap_smul]
  exact hθ.comp_hasFDerivAt x h

theorem HasGradAt.mul (h : HasGradAt f g x) (h' : HasGradAt f' g' x) :
    HasGradAt (fun y => f y * f' y) (f x • g' + f' x • g) x := by
  unfold HasGradAt
  rw [dotMap_add, dotMap_smul, dotMap_smul]
  exact HasFDerivAt.mul h h'

end

/-! ## Functions of a real number -/

/-- The derivative near a point, and the second derivative there. -/
structure ScalarTwice (θ slope : ℝ → ℝ) (curvature s : ℝ) : Prop where
  first : ∀ᶠ t in 𝓝 s, HasDerivAt θ (slope t) t
  second : HasDerivAt slope curvature s

section

variable {θ θ' slope slope' : ℝ → ℝ} {curvature c s : ℝ}

theorem ScalarTwice.congr (h : ScalarTwice θ slope curvature s) (hθ : θ' =ᶠ[𝓝 s] θ)
    (hslope : slope' =ᶠ[𝓝 s] slope) : ScalarTwice θ' slope' curvature s where
  first := by
    filter_upwards [h.first, hθ.eventually_nhds, hslope] with t ht heq hs
    rw [hs]
    exact ht.congr_of_eventuallyEq heq
  second := h.second.congr_of_eventuallyEq hslope

/-- The piece above `c`. -/
theorem ScalarTwice.of_gt (h : ScalarTwice θ slope curvature s) (hs : c < s)
    (hθ : ∀ t, c < t → θ' t = θ t) (hslope : ∀ t, c < t → slope' t = slope t) :
    ScalarTwice θ' slope' curvature s :=
  h.congr (eventually_of_mem (Ioi_mem_nhds hs) hθ) (eventually_of_mem (Ioi_mem_nhds hs) hslope)

/-- The piece below `c`. -/
theorem ScalarTwice.of_lt (h : ScalarTwice θ slope curvature s) (hs : s < c)
    (hθ : ∀ t, t < c → θ' t = θ t) (hslope : ∀ t, t < c → slope' t = slope t) :
    ScalarTwice θ' slope' curvature s :=
  h.congr (eventually_of_mem (Iio_mem_nhds hs) hθ) (eventually_of_mem (Iio_mem_nhds hs) hslope)

theorem scalarTwice_const (k : ℝ) : ScalarTwice (fun _ => k) (fun _ => 0) 0 s where
  first := Eventually.of_forall fun t => hasDerivAt_const t k
  second := hasDerivAt_const s 0

/-- A linear function. -/
theorem scalarTwice_linear (k : ℝ) : ScalarTwice (fun t => k * t) (fun _ => k) 0 s where
  first := Eventually.of_forall fun t => by simpa using (hasDerivAt_id t).const_mul k
  second := hasDerivAt_const s k

/-- A quadratic function. -/
theorem scalarTwice_quadratic (a b k : ℝ) :
    ScalarTwice (fun t => a * (t - k) * (t - k) + b * (t - k))
      (fun t => 2 * a * (t - k) + b) (2 * a) s where
  first := Eventually.of_forall fun t => by
    have hid : HasDerivAt (fun t : ℝ => t - k) 1 t := (hasDerivAt_id t).sub_const k
    refine (((hid.const_mul a).mul hid).add (hid.const_mul b)).congr_deriv ?_
    ring
  second := by
    have hid : HasDerivAt (fun t : ℝ => t - k) 1 s := (hasDerivAt_id s).sub_const k
    refine ((hid.const_mul (2 * a)).add_const b).congr_deriv ?_
    ring

end

/-! ## Hessians -/

structure HasHessAt (f : (ι → ℝ) → ℝ) (grad : (ι → ℝ) → ι → ℝ) (hess : Matrix ι ι ℝ) (x : ι → ℝ) :
    Prop where
  first : ∀ᶠ y in 𝓝 x, HasGradAt f (grad y) y
  second : ∀ j, HasGradAt (fun y => grad y j) (hess j) x

section

variable {f f' : (ι → ℝ) → ℝ} {grad grad' : (ι → ℝ) → ι → ℝ} {hess hess' : Matrix ι ι ℝ} {x : ι → ℝ}

theorem HasHessAt.hasGradAt (h : HasHessAt f grad hess x) : HasGradAt f (grad x) x :=
  h.first.self_of_nhds

/-- The second derivatives of a function do not depend on how its gradients are written. -/
theorem HasHessAt.unique (h : HasHessAt f grad hess x) (h' : HasHessAt f grad' hess' x) :
    hess = hess' := by
  have heq : grad' =ᶠ[𝓝 x] grad := by
    filter_upwards [h.first, h'.first] with y hy hy'
    exact hy'.unique hy
  funext j
  exact (h.second j).unique ((h'.second j).congr (heq.symm.fun_comp (· j)))

theorem HasHessAt.congr (h : HasHessAt f grad hess x) (heq : f' =ᶠ[𝓝 x] f) :
    HasHessAt f' grad hess x where
  first := by
    filter_upwards [h.first, heq.eventually_nhds] with y hy hnear
    exact hy.congr hnear
  second := h.second

theorem HasHessAt.add (h : HasHessAt f grad hess x) (h' : HasHessAt f' grad' hess' x) :
    HasHessAt (fun y => f y + f' y) (fun y => grad y + grad' y) (hess + hess') x where
  first := by
    filter_upwards [h.first, h'.first] with y hy hy'
    exact hy.add hy'
  second j := (h.second j).add (h'.second j)

theorem HasHessAt.neg (h : HasHessAt f grad hess x) :
    HasHessAt (fun y => -f y) (fun y => -grad y) (-hess) x where
  first := by
    filter_upwards [h.first] with y hy
    exact hy.neg
  second j := (h.second j).neg

theorem HasHessAt.add_const (h : HasHessAt f grad hess x) (c : ℝ) :
    HasHessAt (fun y => f y + c) grad hess x where
  first := by
    filter_upwards [h.first] with y hy
    exact hy.add_const c
  second := h.second

theorem hasHessAt_const (c : ℝ) : HasHessAt (fun _ => c) (fun _ => (0 : ι → ℝ)) 0 x where
  first := Eventually.of_forall fun _ => hasGradAt_const c
  second _ := hasGradAt_const 0

/-- The chain rule for a function of a real number. -/
theorem HasHessAt.comp {θ slope : ℝ → ℝ} {curvature : ℝ} (h : HasHessAt f grad hess x)
    (hθ : ScalarTwice θ slope curvature (f x)) :
    HasHessAt (fun y => θ (f y)) (fun y => slope (f y) • grad y)
      (slope (f x) • hess + curvature • Matrix.vecMulVec (grad x) (grad x)) x where
  first := by
    filter_upwards [h.first, h.hasGradAt.continuousAt.eventually hθ.first] with y hy hslope
    exact HasGradAt.comp hslope hy
  second j := by
    have hmul := (HasGradAt.comp hθ.second h.hasGradAt).mul (h.second j)
    refine (congrArg (fun g => HasGradAt _ g x) ?_).mp hmul
    funext k
    simp [Matrix.vecMulVec_apply]
    ring

/-- A function that is linear. -/
theorem hasHessAt_dot (g : ι → ℝ) : HasHessAt (fun y => dotMap g y) (fun _ => g) 0 x where
  first := Eventually.of_forall fun _ => (dotMap g).hasFDerivAt
  second j := hasGradAt_const (g j)

/-- A sum over a list. -/
theorem HasHessAt.listSum {α : Type*} {l : List α} {f : α → (ι → ℝ) → ℝ}
    {grad : α → (ι → ℝ) → ι → ℝ} {hess : α → Matrix ι ι ℝ}
    (h : ∀ a ∈ l, HasHessAt (f a) (grad a) (hess a) x) :
    HasHessAt (fun y => (l.map fun a => f a y).sum) (fun y => (l.map fun a => grad a y).sum)
      (l.map hess).sum x := by
  induction l with
  | nil => exact hasHessAt_const 0
  | cons a l ih =>
    simp only [List.map_cons, List.sum_cons]
    exact (h a List.mem_cons_self).add (ih fun b hb => h b (List.mem_cons_of_mem a hb))

/-- A finite sum. -/
theorem HasGradAt.sum {α : Type*} {s : Finset α} {f : α → (ι → ℝ) → ℝ} {g : α → ι → ℝ}
    (h : ∀ a ∈ s, HasGradAt (f a) (g a) x) :
    HasGradAt (fun y => ∑ a ∈ s, f a y) (∑ a ∈ s, g a) x := by
  classical
  induction s using Finset.induction_on with
  | empty => exact hasGradAt_const 0
  | insert a s ha ih =>
    simp only [Finset.sum_insert ha]
    exact (h a (Finset.mem_insert_self a s)).add
      (ih fun b hb => h b (Finset.mem_insert_of_mem hb))

theorem HasHessAt.sum {α : Type*} {s : Finset α} {f : α → (ι → ℝ) → ℝ}
    {grad : α → (ι → ℝ) → ι → ℝ} {hess : α → Matrix ι ι ℝ}
    (h : ∀ a ∈ s, HasHessAt (f a) (grad a) (hess a) x) :
    HasHessAt (fun y => ∑ a ∈ s, f a y) (fun y => ∑ a ∈ s, grad a y) (∑ a ∈ s, hess a) x := by
  classical
  induction s using Finset.induction_on with
  | empty => exact hasHessAt_const 0
  | insert a s ha ih =>
    simp only [Finset.sum_insert ha]
    exact (h a (Finset.mem_insert_self a s)).add
      (ih fun b hb => h b (Finset.mem_insert_of_mem hb))

end

end Differential
