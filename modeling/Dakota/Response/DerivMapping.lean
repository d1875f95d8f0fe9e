import Dakota.Response.RealArrays
import Dakota.Lib.RangeLoop

/-!
# Derivatives under other variable lists

`map_dvv_indices` and the assignments of derivatives of `src/src/DakotaResponse.cpp`. The merge of
two id lists stands twice in the source, with other actions on a match and other error texts.

* `mergeDvv`: the merge, on what is left of the lists. The end of a list reads as `SZ_MAX`.
* `mergeDvv_eq`: for lists in ascending order, the positions of all current ids, or the first
  current id that is missing.
-/

namespace Dakota

/-- `size_t` -/
abbrev SizeT := Fin (2 ^ 64)

/-- `SZ_MAX` -/
def szMax : SizeT := ⟨2 ^ 64 - 1, by decide⟩

theorem le_szMax (id : SizeT) : id ≤ szMax := Nat.le_sub_one_of_lt id.isLt

namespace DerivMapping

inductive RespError
  /-- The text of the error names the component and the place. -/
  | notPresent (component : SizeT) (place : String)
  /-- "size mismatch following DVV index mapping in Response::map_dvv_indices() indices." -/
  | sizeMismatch
deriving DecidableEq

/-- `(index < num_dvv) ? dvv[index] : SZ_MAX`, on the list from `index` on. -/
def dvvVal : List SizeT → SizeT
  | [] => szMax
  | id :: _ => id

/-- The merge loop, with what it does on a match of two indices. -/
def mergeDvv {σ : Type} (onMatch : σ → ℕ → ℕ → σ) (assign curr : List SizeT)
    (assignIndex currIndex : ℕ) (s : σ) : Except SizeT σ :=
  if _hend : assign = [] ∧ curr = [] then .ok s
  else if _hskip : dvvVal assign < dvvVal curr then
    mergeDvv onMatch assign.tail curr (assignIndex + 1) currIndex s
  else if dvvVal curr < dvvVal assign then .error (dvvVal curr)
  else
    mergeDvv onMatch assign.tail curr.tail (assignIndex + 1) (currIndex + 1)
      (onMatch s assignIndex currIndex)
termination_by assign.length + curr.length
decreasing_by
  · cases assign with
    | nil => exact absurd _hskip (le_szMax _).not_gt
    | cons => simp
  · cases assign with
    | nil =>
      cases curr with
      | nil => simp at _hend
      | cons => simp
    | cons => simp; omega

/-- `map_dvv_indices`; both index arrays are extended. -/
def mapDvvIndices (currDvv assignDvv : List SizeT) (assignIndices currIndices : List ℕ) :
    Except RespError (List ℕ × List ℕ) :=
  match mergeDvv (fun (s : List ℕ × List ℕ) a c => (s.1 ++ [a], s.2 ++ [c])) assignDvv currDvv 0 0
      (assignIndices, currIndices) with
  | .error component => .error (.notPresent component "Response::map_dvv_indices()")
  | .ok s => if s.2.length ≠ currDvv.length then .error .sizeMismatch else .ok s

structure Response where
  /-- `responseActiveSet.derivative_vector()` -/
  derivativeVector : List SizeT
  functionGradients : RealMatrix
  functionHessians : RealSymMatrixArray

/-- `Teuchos::setCol`: a vector with one entry for each row becomes a column. -/
structure SetCol where
  run : RealVector → ℕ → RealMatrix → RealMatrix
  run_spec : ∀ v col g, v.length = g.numRows → col < g.numCols →
    (run v col g).numRows = g.numRows ∧ (run v col g).numCols = g.numCols ∧
    (∀ i < g.numRows, (run v col g).entry i col = v.values i) ∧
    ∀ i j, j ≠ col ∨ g.numRows ≤ i → (run v col g).entry i j = g.entry i j

namespace Response

variable (r : Response)

/-- `function_gradient` with index arrays. -/
def functionGradientByIndices (assignGrad : RealVector) (fnIndex : ℕ)
    (assignIndices currIndices : List ℕ) : Response where
  derivativeVector := r.derivativeVector
  functionGradients := (List.range currIndices.length).foldl (fun g i =>
    g.set (currIndices.getD i 0) fnIndex (assignGrad.values (assignIndices.getD i 0)))
      r.functionGradients
  functionHessians := r.functionHessians

/-- `function_gradient` with `assign_dvv`. -/
def functionGradient (setCol : SetCol) (assignGrad : RealVector) (fnIndex : ℕ)
    (assignDvv : List SizeT) : Except RespError Response :=
  if assignDvv = r.derivativeVector then
    .ok { r with functionGradients := setCol.run assignGrad fnIndex r.functionGradients }
  else
    match mergeDvv (fun (g : RealMatrix) a c => g.set c fnIndex (assignGrad.values a)) assignDvv
        r.derivativeVector 0 0 r.functionGradients with
    | .error component => .error (.notPresent component "assigned gradient vector")
    | .ok g => .ok { r with functionGradients := g }

/-- The loops over the lower triangle. -/
def remapHessian (assignHessian : RealSymMatrix) (assignIndices currIndices : List ℕ)
    (currHessian : RealSymMatrix) : RealSymMatrix :=
  (List.range currIndices.length).foldl (fun h r =>
    (List.range (r + 1)).foldl (fun h c =>
      h.set (currIndices.getD r 0) (currIndices.getD c 0)
        (assignHessian.get (assignIndices.getD r 0) (assignIndices.getD c 0))) h) currHessian

/-- `functionHessians[fn_index] = h` -/
def setHessian (fnIndex : ℕ) (h : RealSymMatrix) : Response :=
  { r with functionHessians :=
      { r.functionHessians with entry := Function.update r.functionHessians.entry fnIndex h } }

/-- `function_hessian` with index arrays. -/
def functionHessianByIndices (assignHessian : RealSymMatrix) (fnIndex : ℕ)
    (assignIndices currIndices : List ℕ) : Response :=
  r.setHessian fnIndex
    (remapHessian assignHessian assignIndices currIndices (r.functionHessians.entry fnIndex))

/-- `function_hessian` with `assign_dvv`. -/
def functionHessian (assignHessian : RealSymMatrix) (fnIndex : ℕ) (assignDvv : List SizeT) :
    Except RespError Response :=
  if assignDvv = r.derivativeVector then .ok (r.setHessian fnIndex assignHessian)
  else do
    let (assignIndices, currIndices) ← mapDvvIndices r.derivativeVector assignDvv [] []
    return r.functionHessianByIndices assignHessian fnIndex assignIndices currIndices

end Response

/-! ## The merge -/

/-- A derivative variables vector: ids in ascending order, counted from 1, so that none is
`SZ_MAX`. -/
structure Dvv where
  ids : List SizeT
  ascending : ids.Pairwise (· < ·)
  lt_szMax : ∀ id ∈ ids, id < szMax

/-- The indices of the ids of the second list in the first one, with the indices in the second. -/
def dvvMatches (assign curr : List SizeT) (assignIndex currIndex : ℕ) : List (ℕ × ℕ) :=
  (curr.zipIdx currIndex).map fun p => (assignIndex + assign.idxOf p.1, p.2)

theorem dvvMatches_cons (assign : List SizeT) (c : SizeT) (curr : List SizeT)
    (assignIndex currIndex : ℕ) :
    dvvMatches assign (c :: curr) assignIndex currIndex =
      (assignIndex + assign.idxOf c, currIndex) ::
        dvvMatches assign curr assignIndex (currIndex + 1) := by
  rw [dvvMatches, List.zipIdx_cons, List.map_cons, ← dvvMatches]

/-- A smaller id in front moves the positions of the others. -/
theorem dvvMatches_skip {a : SizeT} {assign curr : List SizeT} (h : ∀ id ∈ curr, a < id)
    (assignIndex currIndex : ℕ) :
    dvvMatches (a :: assign) curr assignIndex currIndex =
      dvvMatches assign curr (assignIndex + 1) currIndex := by
  refine List.map_congr_left fun p hp => ?_
  have hne : a ≠ p.1 := (h p.1 (List.fst_mem_of_mem_zipIdx hp)).ne
  rw [List.idxOf_cons_ne _ hne, Nat.add_succ, Nat.succ_add]

/-- A smaller id in front is not one that is looked for. -/
theorem find?_skip {a : SizeT} {assign curr : List SizeT} (h : ∀ id ∈ curr, a < id) :
    curr.find? (· ∉ a :: assign) = curr.find? (· ∉ assign) := by
  induction curr with
  | nil => rfl
  | cons c curr ih =>
    obtain ⟨hc, hcurr⟩ := List.forall_mem_cons.mp h
    have hiff : c ∉ a :: assign ↔ c ∉ assign := by
      rw [List.mem_cons, not_or]
      exact ⟨fun h => h.2, fun h => ⟨hc.ne', h⟩⟩
    rw [List.find?_cons, List.find?_cons, ih hcurr, decide_eq_decide.mpr hiff]

section Steps

variable {σ : Type} (onMatch : σ → ℕ → ℕ → σ) {assign curr : List SizeT} {assignIndex currIndex : ℕ}
  {s : σ}

theorem mergeDvv_skip (h : dvvVal assign < dvvVal curr) :
    mergeDvv onMatch assign curr assignIndex currIndex s =
      mergeDvv onMatch assign.tail curr (assignIndex + 1) currIndex s := by
  have hend : ¬(assign = [] ∧ curr = []) := by
    rintro ⟨rfl, rfl⟩
    exact lt_irrefl _ h
  rw [mergeDvv, dif_neg hend, dif_pos h]

theorem mergeDvv_missing (h : dvvVal curr < dvvVal assign) :
    mergeDvv onMatch assign curr assignIndex currIndex s = .error (dvvVal curr) := by
  have hend : ¬(assign = [] ∧ curr = []) := by
    rintro ⟨rfl, rfl⟩
    exact lt_irrefl _ h
  rw [mergeDvv, dif_neg hend, dif_neg h.not_gt, if_pos h]

theorem mergeDvv_match (id : SizeT) :
    mergeDvv onMatch (id :: assign) (id :: curr) assignIndex currIndex s =
      mergeDvv onMatch assign curr (assignIndex + 1) (currIndex + 1)
        (onMatch s assignIndex currIndex) := by
  have hnot : ¬dvvVal (id :: assign) < dvvVal (id :: curr) := lt_irrefl id
  have hnot' : ¬dvvVal (id :: curr) < dvvVal (id :: assign) := lt_irrefl id
  rw [mergeDvv, dif_neg (by simp), dif_neg hnot, if_neg hnot', List.tail_cons, List.tail_cons]

theorem mergeDvv_eq (hassign : assign.Pairwise (· < ·)) (hcurr : curr.Pairwise (· < ·))
    (hmaxA : ∀ id ∈ assign, id < szMax) (hmaxC : ∀ id ∈ curr, id < szMax) :
    mergeDvv onMatch assign curr assignIndex currIndex s =
      match curr.find? (· ∉ assign) with
      | none => .ok ((dvvMatches assign curr assignIndex currIndex).foldl
          (fun s p => onMatch s p.1 p.2) s)
      | some id => .error id := by
  induction hn : assign.length + curr.length using Nat.strong_induction_on
    generalizing assign curr assignIndex currIndex s with
  | _ n ih =>
    cases assign with
    | nil =>
      cases curr with
      | nil =>
        rw [mergeDvv]
        rfl
      | cons c curr =>
        have hc : dvvVal (c :: curr) < dvvVal [] := hmaxC c List.mem_cons_self
        rw [mergeDvv_missing onMatch hc]
        simp [dvvVal]
    | cons a assign =>
      obtain ⟨ha, hassign⟩ := List.pairwise_cons.mp hassign
      obtain ⟨hmaxa, hmaxA⟩ := List.forall_mem_cons.mp hmaxA
      cases curr with
      | nil =>
        have hskip : dvvVal (a :: assign) < dvvVal [] := hmaxa
        rw [mergeDvv_skip onMatch hskip]
        exact ih _ (by subst hn; simp) hassign hcurr hmaxA hmaxC rfl
      | cons c curr =>
        obtain ⟨hc, hcurr'⟩ := List.pairwise_cons.mp hcurr
        obtain ⟨hmaxc, hmaxC'⟩ := List.forall_mem_cons.mp hmaxC
        rcases lt_trichotomy a c with hlt | rfl | hgt
        · -- `a` is not needed
          have hall : ∀ id ∈ c :: curr, a < id :=
            List.forall_mem_cons.mpr ⟨hlt, fun id hid => hlt.trans (hc id hid)⟩
          have hskip : dvvVal (a :: assign) < dvvVal (c :: curr) := hlt
          rw [find?_skip hall, dvvMatches_skip hall, mergeDvv_skip onMatch hskip]
          exact ih _ (by subst hn; simp) hassign hcurr hmaxA hmaxC rfl
        · rw [mergeDvv_match, dvvMatches_cons, List.idxOf_cons_self, dvvMatches_skip hc,
            List.find?_cons_of_neg (by simp), find?_skip hc]
          exact ih _ (by subst hn; simp; omega) hassign hcurr' hmaxA hmaxC' rfl
        · -- all that is left of the first list is greater than `c`
          have hmem : c ∉ a :: assign := by
            rw [List.mem_cons, not_or]
            exact ⟨hgt.ne, fun h => (ha c h).not_gt hgt⟩
          have hmissing : dvvVal (c :: curr) < dvvVal (a :: assign) := hgt
          rw [mergeDvv_missing onMatch hmissing, List.find?_cons, decide_eq_true hmem]
          rfl

end Steps

/-- Without a missing id. -/
theorem mergeDvv_ok {σ : Type} (onMatch : σ → ℕ → ℕ → σ) (assign curr : Dvv)
    (h : ∀ id ∈ curr.ids, id ∈ assign.ids) (s : σ) :
    mergeDvv onMatch assign.ids curr.ids 0 0 s =
      .ok ((dvvMatches assign.ids curr.ids 0 0).foldl (fun s p => onMatch s p.1 p.2) s) := by
  have hnone : curr.ids.find? (· ∉ assign.ids) = none :=
    List.find?_eq_none.mpr fun id hid => by simpa using h id hid
  rw [mergeDvv_eq onMatch assign.ascending curr.ascending assign.lt_szMax curr.lt_szMax, hnone]

/-- With one. -/
theorem mergeDvv_error {σ : Type} (onMatch : σ → ℕ → ℕ → σ) (assign curr : Dvv)
    (h : ¬∀ id ∈ curr.ids, id ∈ assign.ids) (s : σ) :
    ∃ id ∈ curr.ids, id ∉ assign.ids ∧
      mergeDvv onMatch assign.ids curr.ids 0 0 s = .error id := by
  cases hfind : curr.ids.find? (· ∉ assign.ids) with
  | none => exact absurd (fun id hid => by simpa using List.find?_eq_none.mp hfind id hid) h
  | some id =>
    refine ⟨id, List.mem_of_find?_eq_some hfind, by simpa using List.find?_some hfind, ?_⟩
    rw [mergeDvv_eq onMatch assign.ascending curr.ascending assign.lt_szMax curr.lt_szMax, hfind]

end DerivMapping

end Dakota
