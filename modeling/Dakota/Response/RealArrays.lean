import Dakota.Lib.RangeLoop
import Mathlib.Data.Real.Basic

/-!
# Dense arrays

The vectors and matrices of the linear algebra library, as what stands at each index, with the
views that are taken of them. A symmetric matrix keeps its lower triangle.
-/

namespace Dakota

structure RealVector where
  length : ℕ := 0
  values : ℕ → ℝ := fun _ => 0

namespace RealVector

/-- `RealVector(Teuchos::View, values() + start, n)`, read. -/
def view (v : RealVector) (start n : ℕ) : RealVector := ⟨n, fun i => v.values (start + i)⟩

/-- The vector after a view that starts at `start` was filled. -/
def writeView (v : RealVector) (start : ℕ) (sub : RealVector) : RealVector where
  length := v.length
  values i := if start ≤ i ∧ i < start + sub.length then sub.values (i - start) else v.values i

theorem writeView_inside (v sub : RealVector) (start : ℕ) {i : ℕ} (h : i < sub.length) :
    (v.writeView start sub).values (start + i) = sub.values i := by
  simp [writeView, h]

theorem writeView_outside (v sub : RealVector) (start : ℕ) {i : ℕ}
    (h : i < start ∨ start + sub.length ≤ i) : (v.writeView start sub).values i = v.values i := by
  rw [writeView]
  exact if_neg (by omega)

end RealVector

structure RealMatrix where
  numRows : ℕ := 0
  numCols : ℕ := 0
  entry : ℕ → ℕ → ℝ := fun _ _ => 0

namespace RealMatrix

/-- The columns from `start` on, read. -/
def view (g : RealMatrix) (start n : ℕ) : RealMatrix :=
  ⟨g.numRows, n, fun i j => g.entry i (start + j)⟩

/-- The matrix after a view of its columns from `start` on was filled. -/
def writeView (g : RealMatrix) (start : ℕ) (sub : RealMatrix) : RealMatrix where
  numRows := g.numRows
  numCols := g.numCols
  entry i j := if start ≤ j ∧ j < start + sub.numCols then sub.entry i (j - start) else g.entry i j

theorem writeView_inside (g sub : RealMatrix) (start i : ℕ) {j : ℕ} (h : j < sub.numCols) :
    (g.writeView start sub).entry i (start + j) = sub.entry i j := by
  simp [writeView, h]

theorem writeView_outside (g sub : RealMatrix) (start i : ℕ) {j : ℕ}
    (h : j < start ∨ start + sub.numCols ≤ j) :
    (g.writeView start sub).entry i j = g.entry i j := by
  rw [writeView]
  exact if_neg (by omega)

/-- `(i, j) = v` -/
def set (g : RealMatrix) (i j : ℕ) (v : ℝ) : RealMatrix where
  numRows := g.numRows
  numCols := g.numCols
  entry i' j' := if i' = i ∧ j' = j then v else g.entry i' j'

end RealMatrix

/-- Only `lower i j` with `j ≤ i` is stored. -/
structure RealSymMatrix where
  numRows : ℕ := 0
  lower : ℕ → ℕ → ℝ := fun _ _ => 0

namespace RealSymMatrix

/-- `operator()`: either triangle reads the stored one. -/
def get (a : RealSymMatrix) (i j : ℕ) : ℝ := a.lower (max i j) (min i j)

theorem get_comm (a : RealSymMatrix) (i j : ℕ) : a.get i j = a.get j i := by
  rw [get, max_comm, min_comm, get]

/-- The lower triangle, as a general matrix has it. -/
def lowerTriangle (a : RealSymMatrix) (i j : ℕ) : ℝ := if j ≤ i then a.get i j else 0

/-- The matrix after a view of the rows and columns from `start` on was filled. -/
def writeView (a : RealSymMatrix) (start : ℕ) (sub : RealSymMatrix) : RealSymMatrix where
  numRows := a.numRows
  lower i j := if start ≤ j ∧ i < start + sub.numRows then sub.lower (i - start) (j - start)
    else a.lower i j

theorem writeView_inside (a sub : RealSymMatrix) (start : ℕ) {i j : ℕ} (hi : i < sub.numRows)
    (hj : j < sub.numRows) :
    (a.writeView start sub).get (start + i) (start + j) = sub.get i j := by
  have hmax : max (start + i) (start + j) = start + max i j := by omega
  have hmin : min (start + i) (start + j) = start + min i j := by omega
  rw [get, hmax, hmin, writeView]
  simp only [Nat.le_add_right, Nat.add_lt_add_iff_left, true_and, Nat.add_sub_cancel_left]
  exact if_pos (max_lt hi hj)

theorem writeView_outside (a sub : RealSymMatrix) (start : ℕ) {i j : ℕ}
    (h : i < start ∨ start + sub.numRows ≤ i) : (a.writeView start sub).get i j = a.get i j := by
  rw [get, writeView]
  exact if_neg (by omega)

/-- `(i, j) = v` -/
def set (a : RealSymMatrix) (i j : ℕ) (v : ℝ) : RealSymMatrix where
  numRows := a.numRows
  lower i' j' := if i' = max i j ∧ j' = min i j then v else a.lower i' j'

/-- An entry of the lower triangle is that entry and no other of the triangle. -/
theorem get_set (a : RealSymMatrix) {i j i' j' : ℕ} (h : j ≤ i) (h' : j' ≤ i') (v : ℝ) :
    (a.set i j v).get i' j' = if i' = i ∧ j' = j then v else a.get i' j' := by
  rw [get, get, set, max_eq_left h', min_eq_right h', max_eq_left h, min_eq_right h]

/-- Two loops that set the lower triangle, row after row. -/
theorem foldl_fill (v : ℕ → ℕ → ℝ) (a : RealSymMatrix) (n : ℕ) :
    ((List.range n).foldl (fun a i =>
      (List.range (i + 1)).foldl (fun a j => a.set i j (v i j)) a) a).numRows = a.numRows ∧
    ∀ i < n, ∀ j ≤ i, ((List.range n).foldl (fun a i =>
      (List.range (i + 1)).foldl (fun a j => a.set i j (v i j)) a) a).get i j = v i j := by
  refine foldl_range_inv _ a n
    (fun n b => b.numRows = a.numRows ∧ ∀ i < n, ∀ j ≤ i, b.get i j = v i j) ⟨rfl, nofun⟩ ?_
  rintro n b - ⟨hrows, hrest⟩
  obtain ⟨hrows', hrow, hkeep⟩ := foldl_range_inv (fun a j => a.set n j (v n j)) b (n + 1)
    (fun m b' => b'.numRows = b.numRows ∧ (∀ j < m, j ≤ n → b'.get n j = v n j) ∧
      ∀ i j, j ≤ i → i ≠ n → b'.get i j = b.get i j)
    ⟨rfl, nofun, fun _ _ _ _ => rfl⟩
    (by
      rintro m b' hm ⟨hrows, hrow, hkeep⟩
      have hmn : m ≤ n := Nat.lt_succ_iff.mp hm
      refine ⟨hrows, fun j hj hjn => ?_, fun i j hji hin => ?_⟩
      · rw [get_set b' hmn hjn]
        by_cases hjm : j = m
        · subst hjm
          exact if_pos ⟨rfl, rfl⟩
        · rw [if_neg fun h => hjm h.2]
          exact hrow j (by omega) hjn
      · rw [get_set b' hmn hji, if_neg fun h => hin h.1]
        exact hkeep i j hji hin)
  refine ⟨hrows'.trans hrows, fun i hi j hj => ?_⟩
  rcases Nat.lt_succ_iff_lt_or_eq.mp hi with hlt | rfl
  · rw [hkeep i j hj hlt.ne]
    exact hrest i hlt j hj
  · exact hrow j (Nat.lt_succ_of_le hj) hj

end RealSymMatrix

/-- Indexed by the residuals; a Hessian without rows is one that was not computed. -/
structure RealSymMatrixArray where
  size : ℕ := 0
  entry : ℕ → RealSymMatrix := fun _ => {}

end Dakota
