import Dakota.Lib.Numerals
import Mathlib.Order.Lattice
import Mathlib.Order.Defs.LinearOrder

/-!
# Bounds

Lower and upper bounds of a number, possibly infinite (`Bound`), as exact arithmetic has them.
`Bound.le` and `Bound.ge` are the comparisons of a number with its lower and its upper bound, and
`Bound.lt` that of the two bounds.
-/

namespace Dakota

/-- A bound, possibly infinite. -/
inductive Bound (K : Type) where
  | negInf
  | fin (b : K)
  | posInf
deriving DecidableEq

namespace Bound

variable {K : Type} [LinearOrder K]

/-- A number is at least a lower bound. -/
def le (b : Bound K) (y : K) : Prop :=
  match b with
  | negInf => True
  | fin b => b ≤ y
  | posInf => False

/-- A number is at most an upper bound. -/
def ge (b : Bound K) (y : K) : Prop :=
  match b with
  | negInf => False
  | fin b => y ≤ b
  | posInf => True

/-- A lower bound is below an upper bound. -/
def lt (lb ub : Bound K) : Prop :=
  match lb, ub with
  | fin l, fin u => l < u
  | negInf, negInf => False
  | posInf, _ => False
  | _, negInf => False
  | _, posInf => True
  | negInf, _ => True

instance decidableLe (b : Bound K) (y : K) : Decidable (b.le y) :=
  match b with
  | negInf => inferInstanceAs (Decidable True)
  | fin b => inferInstanceAs (Decidable (b ≤ y))
  | posInf => inferInstanceAs (Decidable False)

instance decidableGe (b : Bound K) (y : K) : Decidable (b.ge y) :=
  match b with
  | negInf => inferInstanceAs (Decidable False)
  | fin b => inferInstanceAs (Decidable (y ≤ b))
  | posInf => inferInstanceAs (Decidable True)

instance decidableLt (lb ub : Bound K) : Decidable (lb.lt ub) :=
  match lb, ub with
  | fin l, fin u => inferInstanceAs (Decidable (l < u))
  | negInf, negInf => inferInstanceAs (Decidable False)
  | posInf, _ => inferInstanceAs (Decidable False)
  | fin _, negInf => inferInstanceAs (Decidable False)
  | fin _, posInf => inferInstanceAs (Decidable True)
  | negInf, posInf => inferInstanceAs (Decidable True)
  | negInf, fin _ => inferInstanceAs (Decidable True)

variable {lb ub b : Bound K} {x y z : K}

@[simp] theorem le_fin : (fin x).le y ↔ x ≤ y := .rfl

@[simp] theorem ge_fin : (fin x).ge y ↔ y ≤ x := .rfl

@[simp] theorem lt_fin : (fin x).lt (fin y) ↔ x < y := .rfl

theorem le_trans (h : b.le x) (hxy : x ≤ y) : b.le y := by
  cases b with
  | negInf => trivial
  | fin b => exact h.trans hxy
  | posInf => exact h.elim

theorem ge_trans (h : b.ge y) (hxy : x ≤ y) : b.ge x := by
  cases b with
  | negInf => exact h.elim
  | fin b => exact hxy.trans h
  | posInf => trivial

/-- A number between the bounds, between two others that are within them. -/
theorem within_of_between (hl : lb.le x) (hu : ub.ge y) (hxz : x ≤ z) (hzy : z ≤ y) :
    lb.le z ∧ ub.ge z :=
  ⟨le_trans hl hxz, ge_trans hu hzy⟩

/-- A lower bound that a number violates, and that another one keeps, is finite. -/
theorem exists_fin_of_not_le (h : ¬ b.le y) (hx : b.le x) : ∃ l, b = fin l ∧ y < l ∧ l ≤ x := by
  cases b with
  | negInf => exact (h trivial).elim
  | fin l => exact ⟨l, rfl, not_le.mp h, hx⟩
  | posInf => exact hx.elim

/-- An upper bound that a number violates, and that another one keeps, is finite. -/
theorem exists_fin_of_not_ge (h : ¬ b.ge y) (hx : b.ge x) : ∃ u, b = fin u ∧ u < y ∧ x ≤ u := by
  cases b with
  | negInf => exact hx.elim
  | fin u => exact ⟨u, rfl, not_le.mp h, hx⟩
  | posInf => exact (h trivial).elim

end Bound

end Dakota
