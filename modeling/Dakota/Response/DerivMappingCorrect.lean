import Dakota.Response.DerivMapping

/-!
# Derivatives land on the same variables

* `mapDvvIndices_ok`: the position of each current id in the other list.
* `functionGradient_eq_byIndices`: the gradient's own merge loop is the assignment through the
  indices of `map_dvv_indices`, as the Hessian's is.
* `gradientPlaced_byIndices`, `hessianPlaced_byIndices`: what the assignments through indices store.
* `derivativeRemap`: all together, with the lists that are equal.
-/

namespace Dakota

namespace DerivMapping

variable {assign curr : Dvv}

/-! ## The mapping -/

/-- The position of each current id. -/
def positions (assign curr : Dvv) : List ℕ := curr.ids.map fun id => assign.ids.idxOf id

theorem dvvMatches_eq_map_range (assign curr : Dvv) :
    dvvMatches assign.ids curr.ids 0 0 =
      (List.range curr.ids.length).map fun i => ((positions assign curr).getD i 0, i) := by
  refine List.ext_getElem (by simp [dvvMatches]) fun i hi _ => ?_
  have hlt : i < curr.ids.length := by simpa [dvvMatches] using hi
  simp [dvvMatches, positions, List.getElem?_eq_getElem hlt]

theorem foldl_push (l : List (ℕ × ℕ)) (s : List ℕ × List ℕ) :
    l.foldl (fun (s : List ℕ × List ℕ) p => (s.1 ++ [p.1], s.2 ++ [p.2])) s =
      (s.1 ++ l.map Prod.fst, s.2 ++ l.map Prod.snd) := by
  induction l generalizing s with
  | nil => simp
  | cons p l ih => simp [ih]

theorem mapDvvIndices_ok (h : ∀ id ∈ curr.ids, id ∈ assign.ids) :
    mapDvvIndices curr.ids assign.ids [] [] =
      .ok (positions assign curr, List.range curr.ids.length) := by
  have hfst : ((dvvMatches assign.ids curr.ids 0 0).map Prod.fst) = positions assign curr := by
    refine List.ext_getElem (by simp [dvvMatches, positions]) fun i _ _ => ?_
    simp [dvvMatches, positions]
  have hsnd : ((dvvMatches assign.ids curr.ids 0 0).map Prod.snd) =
      List.range curr.ids.length := by
    rw [dvvMatches_eq_map_range, List.map_map]
    exact List.map_id _
  rw [mapDvvIndices, mergeDvv_ok _ assign curr h, foldl_push, hfst, hsnd]
  simp

theorem mapDvvIndices_error (h : ¬∀ id ∈ curr.ids, id ∈ assign.ids) :
    ∃ id ∈ curr.ids, id ∉ assign.ids ∧ mapDvvIndices curr.ids assign.ids [] [] =
      .error (.notPresent id "Response::map_dvv_indices()") := by
  obtain ⟨id, hmem, hnot, hrun⟩ := mergeDvv_error
    (fun (s : List ℕ × List ℕ) a c => (s.1 ++ [a], s.2 ++ [c])) assign curr h ([], [])
  refine ⟨id, hmem, hnot, ?_⟩
  rw [mapDvvIndices, hrun]

/-! ## Gradients -/

/-- The derivative of each variable is in the row of its id; nothing else changed. -/
structure GradientPlaced (assign curr : Dvv) (assignGrad : RealVector) (fnIndex : ℕ)
    (r r' : Response) : Prop where
  derivativeVector : r'.derivativeVector = r.derivativeVector
  hessians : r'.functionHessians = r.functionHessians
  numRows : r'.functionGradients.numRows = r.functionGradients.numRows
  numCols : r'.functionGradients.numCols = r.functionGradients.numCols
  placed : ∀ i, (hi : i < curr.ids.length) → r'.functionGradients.entry i fnIndex =
    assignGrad.values (assign.ids.idxOf curr.ids[i])
  others : ∀ i j, j ≠ fnIndex ∨ curr.ids.length ≤ i →
    r'.functionGradients.entry i j = r.functionGradients.entry i j

theorem positions_getD {i : ℕ} (hi : i < curr.ids.length) :
    (positions assign curr).getD i 0 = assign.ids.idxOf curr.ids[i] := by
  simp [positions, List.getElem?_eq_getElem hi]

theorem range_getD {n i : ℕ} (hi : i < n) : (List.range n).getD i 0 = i := by
  simp [List.getElem?_range hi]

variable {r : Response}

theorem gradientPlaced_byIndices (assignGrad : RealVector) (fnIndex : ℕ) :
    GradientPlaced assign curr assignGrad fnIndex r
      (r.functionGradientByIndices assignGrad fnIndex (positions assign curr)
        (List.range curr.ids.length)) := by
  obtain ⟨hrows, hcols, hplaced, hothers⟩ := foldl_range_inv
    (fun (g : RealMatrix) i => g.set ((List.range curr.ids.length).getD i 0) fnIndex
      (assignGrad.values ((positions assign curr).getD i 0)))
    r.functionGradients (List.range curr.ids.length).length
    (fun n g => g.numRows = r.functionGradients.numRows ∧
      g.numCols = r.functionGradients.numCols ∧
      (∀ i, (hi : i < curr.ids.length) → i < n →
        g.entry i fnIndex = assignGrad.values (assign.ids.idxOf curr.ids[i])) ∧
      ∀ i j, j ≠ fnIndex ∨ n ≤ i → g.entry i j = r.functionGradients.entry i j)
    ⟨rfl, rfl, fun i _ hi => absurd hi (Nat.not_lt_zero i), fun _ _ _ => rfl⟩
    (by
      rintro n g hn ⟨hrows, hcols, hplaced, hothers⟩
      rw [List.length_range] at hn
      rw [range_getD hn, positions_getD hn]
      refine ⟨hrows, hcols, fun i hi hin => ?_, fun i j hij => ?_⟩
      · by_cases heq : i = n
        · subst heq
          exact if_pos ⟨rfl, rfl⟩
        · exact (if_neg fun h => heq h.1).trans (hplaced i hi (by omega))
      · exact (if_neg (by omega)).trans (hothers i j (by omega)))
  exact ⟨rfl, rfl, hrows, hcols, fun i hi => hplaced i hi (by rwa [List.length_range]),
    fun i j hij => hothers i j (by rwa [List.length_range])⟩

/-- On lists that differ. -/
theorem functionGradient_eq_byIndices (setCol : SetCol) (assignGrad : RealVector) (fnIndex : ℕ)
    (hr : r.derivativeVector = curr.ids) (hne : assign.ids ≠ curr.ids)
    (h : ∀ id ∈ curr.ids, id ∈ assign.ids) :
    r.functionGradient setCol assignGrad fnIndex assign.ids =
      .ok (r.functionGradientByIndices assignGrad fnIndex (positions assign curr)
        (List.range curr.ids.length)) := by
  have hloop : (List.range curr.ids.length).foldl (fun (g : RealMatrix) i =>
        g.set i fnIndex (assignGrad.values ((positions assign curr).getD i 0)))
        r.functionGradients =
      (List.range curr.ids.length).foldl (fun (g : RealMatrix) i =>
        g.set ((List.range curr.ids.length).getD i 0) fnIndex
          (assignGrad.values ((positions assign curr).getD i 0))) r.functionGradients := by
    refine List.foldl_ext _ _ _ fun g i hi => ?_
    rw [range_getD (List.mem_range.mp hi)]
  have hmerge : mergeDvv (fun (g : RealMatrix) a c => g.set c fnIndex (assignGrad.values a))
      assign.ids r.derivativeVector 0 0 r.functionGradients =
      .ok (r.functionGradientByIndices assignGrad fnIndex (positions assign curr)
        (List.range curr.ids.length)).functionGradients := by
    rw [hr, mergeDvv_ok _ assign curr h, dvvMatches_eq_map_range, List.foldl_map, hloop,
      Response.functionGradientByIndices, List.length_range]
  rw [Response.functionGradient, if_neg (hr ▸ hne), hmerge]
  rfl

/-! ## Hessians -/

/-- Each second derivative is in the row and the column of its ids; nothing else changed. -/
structure HessianPlaced (assign curr : Dvv) (assignHessian : RealSymMatrix) (fnIndex : ℕ)
    (r r' : Response) : Prop where
  derivativeVector : r'.derivativeVector = r.derivativeVector
  gradients : r'.functionGradients = r.functionGradients
  size : r'.functionHessians.size = r.functionHessians.size
  numRows : (r'.functionHessians.entry fnIndex).numRows =
    (r.functionHessians.entry fnIndex).numRows
  placed : ∀ i j, (hi : i < curr.ids.length) → (hj : j < curr.ids.length) →
    (r'.functionHessians.entry fnIndex).get i j =
      assignHessian.get (assign.ids.idxOf curr.ids[i]) (assign.ids.idxOf curr.ids[j])
  others : ∀ fn, fn ≠ fnIndex → r'.functionHessians.entry fn = r.functionHessians.entry fn

theorem remapHessian_eq_fill (assignHessian h : RealSymMatrix) :
    Response.remapHessian assignHessian (positions assign curr) (List.range curr.ids.length) h =
      (List.range curr.ids.length).foldl (fun h i => (List.range (i + 1)).foldl (fun h j =>
        h.set i j (assignHessian.get ((positions assign curr).getD i 0)
          ((positions assign curr).getD j 0))) h) h := by
  rw [Response.remapHessian, List.length_range]
  refine List.foldl_ext _ _ _ fun h i hi => List.foldl_ext _ _ _ fun h j hj => ?_
  have hin := List.mem_range.mp hi
  have hji := List.mem_range.mp hj
  rw [range_getD hin, range_getD (by omega : j < curr.ids.length)]

theorem hessianPlaced_byIndices (assignHessian : RealSymMatrix) (fnIndex : ℕ) :
    HessianPlaced assign curr assignHessian fnIndex r
      (r.functionHessianByIndices assignHessian fnIndex (positions assign curr)
        (List.range curr.ids.length)) := by
  obtain ⟨hrows, hfill⟩ := RealSymMatrix.foldl_fill (fun i j =>
    assignHessian.get ((positions assign curr).getD i 0) ((positions assign curr).getD j 0))
    (r.functionHessians.entry fnIndex) curr.ids.length
  rw [← remapHessian_eq_fill] at hrows hfill
  have hentry : ((r.functionHessianByIndices assignHessian fnIndex (positions assign curr)
      (List.range curr.ids.length)).functionHessians.entry fnIndex) =
      Response.remapHessian assignHessian (positions assign curr) (List.range curr.ids.length)
        (r.functionHessians.entry fnIndex) := Function.update_self ..
  refine ⟨rfl, rfl, rfl, ?_, fun i j hi hj => ?_, fun fn hfn => Function.update_of_ne hfn _ _⟩
  · rw [hentry, hrows]
  · rw [hentry]
    rcases le_total j i with hji | hij
    · rw [hfill i hi j hji, positions_getD hi, positions_getD hj]
    · rw [RealSymMatrix.get_comm, hfill j hj i hij, positions_getD hi, positions_getD hj,
        RealSymMatrix.get_comm]

/-! ## Both lists equal -/

theorem idxOf_self (curr : Dvv) {i : ℕ} (hi : i < curr.ids.length) :
    curr.ids.idxOf curr.ids[i] = i := by
  have hnodup : curr.ids.Nodup := curr.ascending.imp fun h => h.ne
  exact hnodup.idxOf_getElem i hi

/-- Each current id is in the list of the derivatives, and what then holds; or the error names one
that is not. -/
structure Remaps {α : Type} (assign curr : Dvv) (place : String) (x : Except RespError α)
    (post : α → Prop) : Prop where
  found : (∀ id ∈ curr.ids, id ∈ assign.ids) → ∃ a, x = .ok a ∧ post a
  missing : (¬∀ id ∈ curr.ids, id ∈ assign.ids) →
    ∃ id ∈ curr.ids, id ∉ assign.ids ∧ x = .error (.notPresent id place)

theorem functionGradient_remaps (setCol : SetCol) (assign curr : Dvv) (r : Response)
    (hr : r.derivativeVector = curr.ids) (assignGrad : RealVector)
    (hlen : assignGrad.length = assign.ids.length) (fnIndex : ℕ)
    (hrows : r.functionGradients.numRows = curr.ids.length)
    (hfn : fnIndex < r.functionGradients.numCols) :
    Remaps assign curr "assigned gradient vector"
      (r.functionGradient setCol assignGrad fnIndex assign.ids)
      (GradientPlaced assign curr assignGrad fnIndex r) := by
  by_cases heq : assign.ids = curr.ids
  · refine ⟨fun _ => ⟨_, if_pos (heq.trans hr.symm), ?_⟩, fun hnot => absurd ?_ hnot⟩
    · obtain ⟨hr', hc', hset, hkeep⟩ := setCol.run_spec assignGrad fnIndex r.functionGradients
        (by rw [hlen, heq, hrows]) hfn
      refine ⟨rfl, rfl, hr', hc', fun i hi => ?_, fun i j hij => hkeep i j (hrows.symm ▸ hij)⟩
      rw [heq, idxOf_self curr hi]
      exact hset i (hrows.symm ▸ hi)
    · exact fun id hid => heq.symm ▸ hid
  · constructor
    · intro h
      exact ⟨_, functionGradient_eq_byIndices setCol assignGrad fnIndex hr heq h,
        gradientPlaced_byIndices assignGrad fnIndex⟩
    · intro h
      obtain ⟨id, hmem, hnot, hrun⟩ := mergeDvv_error
        (fun (g : RealMatrix) a c => g.set c fnIndex (assignGrad.values a)) assign curr h
        r.functionGradients
      refine ⟨id, hmem, hnot, ?_⟩
      rw [Response.functionGradient, if_neg (hr ▸ heq), hr, hrun]

theorem functionHessian_remaps (assign curr : Dvv) (r : Response)
    (hr : r.derivativeVector = curr.ids) (assignHessian : RealSymMatrix) (fnIndex : ℕ)
    (hassign : assignHessian.numRows = assign.ids.length)
    (hrows : (r.functionHessians.entry fnIndex).numRows = curr.ids.length) :
    Remaps assign curr "Response::map_dvv_indices()"
      (r.functionHessian assignHessian fnIndex assign.ids)
      (HessianPlaced assign curr assignHessian fnIndex r) := by
  by_cases heq : assign.ids = curr.ids
  · refine ⟨fun _ => ⟨_, if_pos (heq.trans hr.symm), ?_⟩, fun hnot => absurd ?_ hnot⟩
    · have hentry : (r.setHessian fnIndex assignHessian).functionHessians.entry fnIndex =
          assignHessian := Function.update_self ..
      refine ⟨rfl, rfl, rfl, ?_, fun i j hi hj => ?_, fun fn hfn => Function.update_of_ne hfn _ _⟩
      · rw [hentry, hassign, hrows, heq]
      · rw [hentry, heq, idxOf_self curr hi, idxOf_self curr hj]
    · exact fun id hid => heq.symm ▸ hid
  · have hne : assign.ids ≠ r.derivativeVector := hr ▸ heq
    constructor
    · intro h
      refine ⟨_, ?_, hessianPlaced_byIndices assignHessian fnIndex⟩
      rw [Response.functionHessian, if_neg hne, hr, mapDvvIndices_ok h]
      rfl
    · intro h
      obtain ⟨id, hmem, hnot, hrun⟩ := mapDvvIndices_error h
      refine ⟨id, hmem, hnot, ?_⟩
      rw [Response.functionHessian, if_neg hne, hr, hrun]
      rfl

/-- `Teuchos::setCol` copies. -/
def SetCol.copy : SetCol where
  run v col g := { g with
    entry := fun i j => if j = col ∧ i < g.numRows then v.values i else g.entry i j }
  run_spec v col g _ _ :=
    ⟨rfl, rfl, fun i hi => if_pos ⟨rfl, hi⟩, fun i j hij => if_neg (by omega)⟩

end DerivMapping

open DerivMapping

/-- The mapping of the ids, the gradient and the Hessian that follow it, and when they fail. -/
theorem derivativeRemap (assign curr : Dvv) (setCol : SetCol) (r : Response) (fnIndex : ℕ)
    (assignGrad : RealVector) (assignHessian : RealSymMatrix)
    (hr : r.derivativeVector = curr.ids)
    (hrows : r.functionGradients.numRows = curr.ids.length)
    (hfn : fnIndex < r.functionGradients.numCols)
    (hhess : (r.functionHessians.entry fnIndex).numRows = curr.ids.length)
    (hgradLen : assignGrad.length = assign.ids.length)
    (hhessLen : assignHessian.numRows = assign.ids.length) :
    Remaps assign curr "Response::map_dvv_indices()" (mapDvvIndices curr.ids assign.ids [] [])
        (fun s => s = (positions assign curr, List.range curr.ids.length)) ∧
      Remaps assign curr "assigned gradient vector"
        (r.functionGradient setCol assignGrad fnIndex assign.ids)
        (GradientPlaced assign curr assignGrad fnIndex r) ∧
      Remaps assign curr "Response::map_dvv_indices()"
        (r.functionHessian assignHessian fnIndex assign.ids)
        (HessianPlaced assign curr assignHessian fnIndex r) :=
  ⟨⟨fun h => ⟨_, mapDvvIndices_ok h, rfl⟩, mapDvvIndices_error⟩,
    functionGradient_remaps setCol assign curr r hr assignGrad hgradLen fnIndex hrows hfn,
    functionHessian_remaps assign curr r hr assignHessian fnIndex hhessLen hhess⟩

/-- Variables 1 and 3, of three that are given. -/
theorem derivativeRemap_threeVariables :
    ∃ r', Response.functionGradient ⟨[1, 3], ⟨2, 1, fun _ _ => 0⟩, ⟨1, fun _ => ⟨2, fun _ _ => 0⟩⟩⟩
        SetCol.copy ⟨3, fun i => i⟩ 0 [1, 2, 3] = .ok r' ∧
      r'.functionGradients.entry 1 0 = (2 : ℕ) := by
  obtain ⟨r', hok, hplaced⟩ := (derivativeRemap
    ⟨[1, 2, 3], by decide +kernel, by simp [szMax, Fin.lt_def]⟩
    ⟨[1, 3], by decide +kernel, by simp [szMax, Fin.lt_def]⟩
    SetCol.copy ⟨[1, 3], ⟨2, 1, fun _ _ => 0⟩, ⟨1, fun _ => ⟨2, fun _ _ => 0⟩⟩⟩ 0 ⟨3, fun i => i⟩
    ⟨3, fun _ _ => 0⟩ rfl rfl one_pos rfl rfl rfl).2.1.found (by simp)
  exact ⟨r', hok, hplaced.placed 1 (by decide +kernel)⟩

end Dakota
