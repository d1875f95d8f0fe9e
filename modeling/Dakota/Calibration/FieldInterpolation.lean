import Dakota.Lib.RangeLoop
import Dakota.Lib.PiecewiseLinear

/-!
# Interpolation of field data

`binary_search` and `linear_interpolate_1d` of `src/src/ExperimentDataUtils.hpp` and `.cpp`, in
exact arithmetic. A read or write past an array and a division by zero are faults. The memory that
an output matrix is given without initialisation holds anything.
-/

namespace Dakota

namespace FieldInterp

inductive Fault
  | runtimeError (what : String)
  | outOfRange
  | divideByZero
deriving DecidableEq, Repr

section Arrays

variable {α : Type}

/-- `data[i]` -/
def readAt (data : List α) (i : ℤ) : Except Fault α :=
  if 0 ≤ i then
    match data[i.toNat]? with
    | some a => .ok a
    | none => .error .outOfRange
  else .error .outOfRange

/-- `data[i] = a` -/
def writeAt (data : List α) (i : ℕ) (a : α) : Except Fault (List α) :=
  if i < data.length then .ok (data.set i a) else .error .outOfRange

theorem readAt_eq {data : List α} {i : ℕ} (h : i < data.length) : readAt data i = .ok data[i] := by
  simp [readAt, h]

theorem writeAt_eq {data : List α} {i : ℕ} (h : i < data.length) (a : α) :
    writeAt data i a = .ok (data.set i a) := if_pos h

/-- A `SerialDenseMatrix`. -/
structure Matrix (α : Type) where
  numRows : ℕ
  numCols : ℕ
  entry : ℕ → ℕ → α

namespace Matrix

def read (m : Matrix α) (i j : ℤ) : Except Fault α :=
  if 0 ≤ i ∧ i < m.numRows ∧ 0 ≤ j ∧ j < m.numCols then .ok (m.entry i.toNat j.toNat)
  else .error .outOfRange

def write (m : Matrix α) (i j : ℕ) (a : α) : Except Fault (Matrix α) :=
  if i < m.numRows ∧ j < m.numCols then
    .ok { m with entry := fun i' j' => if i' = i ∧ j' = j then a else m.entry i' j' }
  else .error .outOfRange

/-- The values of a matrix with one column, in the order of the rows. -/
def column (m : Matrix α) : List α := (List.range m.numRows).map fun i => m.entry i 0

/-- A list as a matrix with one column. -/
def ofColumn [Zero α] (l : List α) : Matrix α := ⟨l.length, 1, fun i _ => l.getD i 0⟩

theorem column_ofColumn [Zero α] (l : List α) : (ofColumn l).column = l := by
  refine List.ext_getElem (by simp [column, ofColumn]) fun i hi _ => ?_
  have hlt : i < l.length := by simpa [column, ofColumn] using hi
  simp [column, ofColumn, List.getElem?_eq_getElem hlt]

theorem read_eq {m : Matrix α} {i j : ℕ} (hi : i < m.numRows) (hj : j < m.numCols) :
    m.read i j = .ok (m.entry i j) := if_pos ⟨by omega, by omega, by omega, by omega⟩

end Matrix

/-- A `SerialSymDenseMatrix`: only `lower i j` with `j ≤ i` is stored. -/
structure SymMatrix (α : Type) where
  numRows : ℕ
  lower : ℕ → ℕ → α

namespace SymMatrix

/-- `operator()`: either triangle reads the stored one. -/
def get (m : SymMatrix α) (i j : ℕ) : α := m.lower (max i j) (min i j)

def read (m : SymMatrix α) (i j : ℕ) : Except Fault α :=
  if i < m.numRows ∧ j < m.numRows then .ok (m.get i j) else .error .outOfRange

def write (m : SymMatrix α) (i j : ℕ) (a : α) : Except Fault (SymMatrix α) :=
  if i < m.numRows ∧ j < m.numRows then
    .ok { m with lower := fun i' j' => if i' = max i j ∧ j' = min i j then a else m.lower i' j' }
  else .error .outOfRange

theorem get_comm (m : SymMatrix α) (i j : ℕ) : m.get i j = m.get j i := by
  rw [get, max_comm, min_comm, get]

end SymMatrix

end Arrays

variable {K : Type} [Field K] [LinearOrder K]

/-- The loop of `binary_search`, and what follows it. -/
def searchLoop (target : K) (data : List K) (low high : ℤ) : Except Fault ℤ :=
  if low ≤ high then do
    let x ← readAt data (low + (high - low) / 2)
    if target < x then searchLoop target data low (low + (high - low) / 2 - 1)
    else if x < target then searchLoop target data (low + (high - low) / 2 + 1) high
    else pure (low + (high - low) / 2)
  else if high < 0 then pure 0
  else if high < low then pure high
  else pure low
termination_by (high - low + 1).toNat

/-- `binary_search` -/
def binarySearch (target : K) (data : List K) : Except Fault ℤ :=
  searchLoop target data 0 (data.length - 1)

/-- The build data: values, gradients (one column for each build point) and Hessians. -/
structure Build (K : Type) where
  pts : Matrix K
  vals : List K
  grads : Matrix K
  hessians : List (SymMatrix K)

/-- The arrays that are filled. -/
structure Pred (K : Type) where
  vals : List K
  grads : Matrix K
  hessians : List (SymMatrix K)

namespace Build

variable (b : Build K)

/-- `interp_grads` -/
def interpGrads : Bool := 0 < b.grads.numRows && 0 < b.grads.numCols

/-- `interp_hessians` -/
def interpHessians : Bool := 0 < b.hessians.length

/-- `num_vars` -/
def numVars : ℕ := b.grads.numRows

/-- What a branch makes of the entries of one quantity at the build points. -/
abbrev Combine (K : Type) := (ℤ → Except Fault K) → Except Fault K

/-- A branch outside the range. -/
def constant (index : ℤ) : Combine K := fun read => read index

/-- The branch inside the range. -/
def linear (p : K) (index : ℤ) : Combine K := fun read => do
  let v ← read index
  let v' ← read (index + 1)
  let x ← readAt b.pts.column index
  let x' ← readAt b.pts.column (index + 1)
  if x' - x = 0 then .error .divideByZero else pure (v + (v' - v) / (x' - x) * (p - x))

def setVal (combine : Combine K) (i : ℕ) (out : Pred K) : Except Fault (Pred K) := do
  let v ← combine (readAt b.vals)
  let vals ← writeAt out.vals i v
  pure { out with vals := vals }

def setGrads (combine : Combine K) (i : ℕ) (out : Pred K) : Except Fault (Pred K) := do
  let grads ← (List.range b.grads.numRows).foldlM (fun g (k : ℕ) => do
    let v ← combine (b.grads.read k)
    g.write k i v) out.grads
  pure { out with grads := grads }

/-- `build_hessians[index](j, k)` -/
def readHessian (j k : ℕ) (index : ℤ) : Except Fault K := do
  let h ← readAt b.hessians index
  h.read j k

def fillHessian (combine : Combine K) (hess : SymMatrix K) : Except Fault (SymMatrix K) :=
  (List.range b.grads.numRows).foldlM (fun hess k =>
    (List.range (k + 1)).foldlM (fun hess j => do
      let v ← combine (b.readHessian j k)
      hess.write j k v) hess) hess

def setHessian (uninit : ℕ → ℕ → K) (combine : Combine K) (i : ℕ) (out : Pred K) :
    Except Fault (Pred K) := do
  let hess ← readAt out.hessians i
  let hess ← b.fillHessian combine
    (if hess.numRows ≠ b.numVars then ⟨b.numVars, uninit⟩ else hess)
  let hessians ← writeAt out.hessians i hess
  pure { out with hessians := hessians }

/-- The body of the loop over the prediction points. -/
def predictPoint (uninit : ℕ → ℕ → K) (p : K) (i : ℕ) (out : Pred K) : Except Fault (Pred K) := do
  let first ← readAt b.pts.column 0
  if p ≤ first then
    let out ← b.setVal (constant 0) i out
    let out ← b.setGrads (constant 0) i out
    if b.interpHessians then b.setHessian uninit (constant 0) i out else pure out
  else
    let last ← readAt b.pts.column (b.pts.numRows - 1)
    if last ≤ p then
      let out ← b.setVal (constant (b.pts.numRows - 1)) i out
      let out ← b.setGrads (constant (b.pts.numRows - 1)) i out
      if b.interpHessians then b.setHessian uninit (constant (b.pts.numRows - 1)) i out
      else pure out
    else
      let index ← binarySearch p b.pts.column
      let out ← b.setVal (b.linear p index) i out
      let out ← if b.interpGrads then b.setGrads (b.linear p index) i out else pure out
      if b.interpHessians then b.setHessian uninit (b.linear p index) i out else pure out

/-- The arrays after they were given their shapes. -/
def shape (uninit : ℕ → ℕ → K) (m : ℕ) (out : Pred K) : Pred K where
  vals := if out.vals.length ≠ m then (List.range m).map (uninit 0) else out.vals
  grads :=
    if b.interpGrads ∧ (out.grads.numRows ≠ b.numVars ∨ out.grads.numCols ≠ m) then
      ⟨b.numVars, m, uninit⟩
    else out.grads
  hessians :=
    if b.interpHessians ∧ out.hessians.length ≠ m then
      out.hessians.take m ++ List.replicate (m - out.hessians.length) ⟨0, uninit⟩
    else out.hessians

/-- `linear_interpolate_1d` -/
def linearInterpolate1d (uninit : ℕ → ℕ → K) (predPts : Matrix K) (out : Pred K) :
    Except Fault (Pred K) :=
  if b.interpHessians ∧ ¬ b.interpGrads then
    .error (.runtimeError "Hessians were provided, but gradients were missing")
  else if b.pts.numCols ≠ 1 then .error (.runtimeError "build pts must be Nx1")
  else if predPts.numCols ≠ 1 then .error (.runtimeError "build pts must be Mx1")
  else
    (List.range predPts.numRows).foldlM (fun out (i : ℕ) => do
      let p ← readAt predPts.column i
      b.predictPoint uninit p i out) (b.shape uninit predPts.numRows out)

end Build

end FieldInterp

end Dakota
