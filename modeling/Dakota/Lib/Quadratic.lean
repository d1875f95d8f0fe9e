import Dakota.Lib.Numerals
import Mathlib

/-!
# Quadratic functions

Quadratic functions of finitely many variables, with their gradient and their Hessian, and what a
step in one variable or in two of them does to the value (`value_step`, `value_step_step`) and to
the gradient (`gradient_step`).
-/

namespace Dakota

/-- `const + linear · x + 1/2 xᵀ hess x` -/
structure Quadratic (K : Type) (n : Nat) where
  const : K
  linear : Fin n → K
  hess : Fin n → Fin n → K
  hess_symm : ∀ a b, hess a b = hess b a

namespace Quadratic

variable {K : Type} [Field K] {n : Nat} (q : Quadratic K n) (x : Fin n → K) (a b : Fin n) (h k : K)

def value : K :=
  q.const + ∑ a, q.linear a * x a + 1 / 2 * ∑ a, x a * ∑ b, q.hess a b * x b

def gradient : K := q.linear a + ∑ b, q.hess a b * x b

/-- The point after a step in one variable. -/
def step : Fin n → K := Function.update x a (x a + h)

theorem step_apply : step x a h b = x b + if b = a then h else 0 := by
  unfold step
  by_cases hb : b = a
  · rw [hb, Function.update_self, if_pos rfl]
  · rw [Function.update_of_ne hb, if_neg hb, add_zero]

theorem sum_step (c : Fin n → K) : ∑ b, c b * step x a h b = ∑ b, c b * x b + h * c a := by
  simp only [step_apply, mul_add, Finset.sum_add_distrib, mul_ite, mul_zero, Finset.sum_ite_eq',
    Finset.mem_univ, if_true]
  rw [mul_comm h]

theorem gradient_step : q.gradient (step x a h) b = q.gradient x b + h * q.hess b a := by
  unfold gradient
  rw [sum_step]
  ring

theorem value_step [NeZero (2 : K)] :
    q.value (step x a h) = q.value x + h * q.gradient x a + 1 / 2 * h ^ 2 * q.hess a a := by
  have hrow : ∀ c, ∑ b, q.hess c b * step x a h b = ∑ b, q.hess c b * x b + h * q.hess c a :=
    fun c => sum_step x a h (q.hess c)
  have hcol : ∑ c, x c * q.hess c a = ∑ b, q.hess a b * x b :=
    Finset.sum_congr rfl fun c _ => by rw [q.hess_symm c a, mul_comm]
  have hdiag : ∑ c, step x a h c * (∑ b, q.hess c b * x b + h * q.hess c a) =
      ∑ c, x c * (∑ b, q.hess c b * x b) + 2 * h * (∑ b, q.hess a b * x b) +
        h ^ 2 * q.hess a a := by
    have := sum_step x a h fun c => ∑ b, q.hess c b * x b + h * q.hess c a
    simp only [mul_comm (_ + _ : K) (step x a h _), mul_comm (_ + _ : K) (x _)] at this
    rw [this]
    simp only [mul_add, Finset.sum_add_distrib, mul_left_comm (x _) h, ← Finset.mul_sum, hcol]
    ring
  unfold value gradient
  simp only [hrow, hdiag, sum_step]
  have h2 : (2 : K) ≠ 0 := NeZero.ne 2
  field_simp
  ring

/-- Steps in two variables. -/
theorem value_step_step [NeZero (2 : K)] :
    q.value (step (step x a h) b k) = q.value x + h * q.gradient x a + 1 / 2 * h ^ 2 * q.hess a a +
      k * q.gradient x b + 1 / 2 * k ^ 2 * q.hess b b + h * k * q.hess b a := by
  rw [value_step, value_step, gradient_step]
  ring

end Quadratic

end Dakota
