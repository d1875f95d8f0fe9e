import Dakota.Calibration.CovarianceViews
import Dakota.Lib.Outcome

/-!
# Setting and copying an experiment covariance

What `set_covariance_matrices` makes of valid blocks in any order, and `operator=` of the result.

* `setCovarianceMatrices_holds`, `assign_holds`: the object and its copy hold the blocks; all their
  views but the dense matrix are views of one matrix (`viewsOf_set`, `viewsOf_copy`).
* `viewsAgree_iff`: exactly when the views agree with the dense matrix: no block is full, and no
  diagonal block with something to scale lacks its first Hessian.
-/

namespace Dakota

open Matrix

namespace CovarianceInput

variable (given : CovarianceInput)

def numBlocks : ℕ := given.matrixMapIndices.length + given.diagonalMapIndices.length +
  given.scalarMapIndices.length

/-- The blocks with their indices, in the order in which they are set. -/
def entries : List (ℕ × CovarianceBlock) :=
  given.matrixMapIndices.zip (given.matrices.map .full) ++
  (given.diagonalMapIndices.zip (given.diagonals.map .diagonal) ++
  given.scalarMapIndices.zip (given.scalars.map fun x => .diagonal ⟨1, fun _ => x⟩))

/-- The blocks in the order of the residuals. -/
def blocks : List CovarianceBlock :=
  (List.range given.numBlocks).map fun k => (given.entries.lookup k).getD (.diagonal {})

/-- Positive definite blocks with indices that number them. -/
structure Valid : Prop where
  matrices_length : given.matrices.length = given.matrixMapIndices.length
  diagonals_length : given.diagonals.length = given.diagonalMapIndices.length
  scalars_length : given.scalars.length = given.scalarMapIndices.length
  matrices : ∀ a ∈ given.matrices, (CovarianceBlock.full a).Valid
  diagonals : ∀ d ∈ given.diagonals, (CovarianceBlock.diagonal d).Valid
  scalars : ∀ x ∈ given.scalars, 0 < x
  bijection : (given.matrixMapIndices ++ (given.diagonalMapIndices ++
    given.scalarMapIndices)).Perm (List.range given.numBlocks)

namespace Valid

variable {given} (h : given.Valid)
include h

theorem entries_fst : given.entries.map Prod.fst = given.matrixMapIndices ++
    (given.diagonalMapIndices ++ given.scalarMapIndices) := by
  simp only [entries, List.map_append]
  rw [List.map_fst_zip (by simp [h.matrices_length]),
    List.map_fst_zip (by simp [h.diagonals_length]), List.map_fst_zip (by simp [h.scalars_length])]

theorem entries_perm : (given.entries.map Prod.fst).Perm (List.range given.numBlocks) :=
  h.entries_fst ▸ h.bijection

theorem entries_nodup : (given.entries.map Prod.fst).Nodup :=
  h.entries_perm.nodup_iff.mpr List.nodup_range

theorem entries_valid : ∀ e ∈ given.entries, e.1 < given.numBlocks ∧ e.2.Valid := by
  intro e he
  refine ⟨List.mem_range.mp (h.entries_perm.mem_iff.mp (List.mem_map_of_mem he)), ?_⟩
  simp only [entries, List.mem_append] at he
  rcases he with he | he | he
  · obtain ⟨a, ha, hea⟩ := List.mem_map.mp (List.of_mem_zip he).2
    exact hea ▸ h.matrices a ha
  · obtain ⟨d, hd, hed⟩ := List.mem_map.mp (List.of_mem_zip he).2
    exact hed ▸ h.diagonals d hd
  · obtain ⟨x, hx, hex⟩ := List.mem_map.mp (List.of_mem_zip he).2
    exact hex ▸ ⟨one_pos, fun _ _ => h.scalars x hx⟩

/-- The block at an index is the one given with it. -/
theorem lookup_entries {e : ℕ × CovarianceBlock} (he : e ∈ given.entries) :
    given.entries.lookup e.1 = some e.2 := by
  obtain ⟨l₁, l₂, hl⟩ := List.append_of_mem he
  refine List.lookup_eq_some_iff.mpr ⟨l₁, l₂, hl, fun p hp => ?_⟩
  have hnodup := h.entries_nodup
  rw [hl, List.map_append, List.map_cons, List.nodup_append] at hnodup
  have := hnodup.2.2 p.1 (List.mem_map_of_mem hp) e.1 (by simp)
  simpa using this.symm

theorem exists_entry {k : ℕ} (hk : k < given.numBlocks) :
    ∃ b, (k, b) ∈ given.entries ∧ (given.entries.lookup k).getD (.diagonal {}) = b := by
  obtain ⟨e, he, rfl⟩ := List.mem_map.mp
    (h.entries_perm.mem_iff.mpr (List.mem_range.mpr hk))
  exact ⟨e.2, he, by rw [h.lookup_entries he]; rfl⟩

theorem blocks_valid : ∀ b ∈ given.blocks, b.Valid := by
  intro b hb
  obtain ⟨k, hk, rfl⟩ := List.mem_map.mp hb
  obtain ⟨b, hb, hlook⟩ := h.exists_entry (List.mem_range.mp hk)
  rw [hlook]
  exact (h.entries_valid _ hb).2

end Valid

end CovarianceInput

namespace ExperimentCovariance

/-! ## The loops of `set_covariance_matrices` -/

/-- A full block has no diagonal left over from an earlier call. -/
def Clean (c : CovarianceMatrix) : Prop := c.covIsDiagonal = false → c.covDiagonal.length = 0

/-- The blocks in `done` were set, and no others. -/
structure Sets (cov cov' : ExperimentCovariance) (done : List (ℕ × CovarianceBlock)) : Prop where
  numBlocks : cov'.numBlocks = cov.numBlocks
  length : cov'.covMatrices.length = cov.covMatrices.length
  stored : ∀ e ∈ done, (cov'.covMatrices.getD e.1 {}).Stored e.2
  clean : ∀ e ∈ done, (cov.covMatrices.getD e.1 {}).covDiagonal.length = 0 →
    Clean (cov'.covMatrices.getD e.1 {})
  frame : ∀ i, i ∉ done.map Prod.fst →
    cov'.covMatrices.getD i {} = cov.covMatrices.getD i {}

theorem Sets.refl (cov : ExperimentCovariance) : Sets cov cov [] :=
  ⟨rfl, rfl, fun _ h => by simp at h, fun _ h => by simp at h, fun _ _ => rfl⟩

theorem Sets.trans {cov cov₁ cov₂ : ExperimentCovariance} {d₁ d₂ : List (ℕ × CovarianceBlock)}
    (h₁ : Sets cov cov₁ d₁) (h₂ : Sets cov₁ cov₂ d₂)
    (hnodup : ((d₁ ++ d₂).map Prod.fst).Nodup) : Sets cov cov₂ (d₁ ++ d₂) := by
  rw [List.map_append, List.nodup_append] at hnodup
  have hleft : ∀ e ∈ d₁, cov₂.covMatrices.getD e.1 {} = cov₁.covMatrices.getD e.1 {} :=
    fun e he => h₂.frame e.1 fun he' => hnodup.2.2 _ (List.mem_map_of_mem he) _ he' rfl
  have hright : ∀ e ∈ d₂, cov₁.covMatrices.getD e.1 {} = cov.covMatrices.getD e.1 {} :=
    fun e he => h₁.frame e.1 fun he' => hnodup.2.2 _ he' _ (List.mem_map_of_mem he) rfl
  refine ⟨h₂.numBlocks.trans h₁.numBlocks, h₂.length.trans h₁.length, fun e he => ?_,
    fun e he => ?_, fun i hi => ?_⟩
  · rcases List.mem_append.mp he with he | he
    · rw [hleft e he]
      exact h₁.stored e he
    · exact h₂.stored e he
  · rcases List.mem_append.mp he with he | he
    · rw [hleft e he]
      exact h₁.clean e he
    · rw [← hright e he]
      exact h₂.clean e he
  · rw [List.map_append, List.mem_append, not_or] at hi
    rw [h₂.frame i hi.2, h₁.frame i hi.1]

/-- A setter of one kind of blocks stores what it is given. -/
def Setter {X : Type} (setBlock : CovarianceMatrix → X → Except String CovarianceMatrix)
    (toBlock : X → CovarianceBlock) : Prop :=
  ∀ c x, (toBlock x).Valid → ∃ c', setBlock c x = .ok c' ∧ c'.Stored (toBlock x) ∧
    (c.covDiagonal.length = 0 → Clean c')

theorem setBlocks_sets {X : Type} (indexMap : String) {dof : X → ℕ}
    {setBlock : CovarianceMatrix → X → Except String CovarianceMatrix}
    {toBlock : X → CovarianceBlock} (hset : Setter setBlock toBlock) (xs : List (ℕ × X)) :
    ∀ cov : ExperimentCovariance, cov.covMatrices.length = cov.numBlocks →
      (∀ e ∈ xs, e.1 < cov.numBlocks ∧ (toBlock e.2).Valid) → (xs.map Prod.fst).Nodup →
      ∃ cov', setBlocks indexMap setBlock dof xs cov = .ok cov' ∧
        Sets cov cov' (xs.map (Prod.map id toBlock)) ∧
        cov'.numDOF = cov.numDOF + (xs.map fun e => dof e.2).sum := by
  induction xs with
  | nil => exact fun cov _ _ _ => ⟨cov, rfl, .refl cov, rfl⟩
  | cons e xs ih =>
    intro cov hlen hvalid hnodup
    obtain ⟨i, x⟩ := e
    obtain ⟨hi, hx⟩ := hvalid (i, x) List.mem_cons_self
    obtain ⟨c', hc', hstored, hclean⟩ := hset (cov.covMatrices.getD i {}) x hx
    let cov₁ : ExperimentCovariance := { cov with
      covMatrices := cov.covMatrices.set i c'
      numDOF := cov.numDOF + dof x }
    have hget : cov₁.covMatrices.getD i {} = c' := by
      simp [cov₁, List.getD_eq_getElem?_getD, hlen, hi]
    have hone : Sets cov cov₁ [(i, toBlock x)] := by
      refine ⟨rfl, List.length_set, ?_, ?_, fun j hj => ?_⟩
      · rintro e he
        cases List.mem_singleton.mp he
        exact hget ▸ hstored
      · rintro e he
        cases List.mem_singleton.mp he
        exact hget ▸ hclean
      · have hji : i ≠ j := fun h => hj (by simp [h])
        simp [cov₁, List.getD_eq_getElem?_getD, List.getElem?_set_ne hji]
    obtain ⟨cov', hrun, hsets, hdof⟩ := ih cov₁ (List.length_set.trans hlen)
      (fun e he => hvalid e (List.mem_cons_of_mem _ he)) (List.nodup_cons.mp hnodup).2
    refine ⟨cov', ?_, hone.trans hsets ?_, ?_⟩
    · have hnot : ¬ cov.numBlocks ≤ i := not_le.mpr hi
      rw [setBlocks, List.foldlM_cons]
      simp only [if_neg hnot, hc']
      exact hrun
    · have hfst : Prod.fst ∘ Prod.map id toBlock = (Prod.fst : ℕ × X → ℕ) := rfl
      simpa [hfst] using hnodup
    · simp only [hdof, cov₁, List.map_cons, List.sum_cons]
      omega

/-- The same for the blocks `xs` with the indices `is`. -/
theorem setBlocks_zip {X : Type} (indexMap : String) (dof : X → ℕ)
    {setBlock : CovarianceMatrix → X → Except String CovarianceMatrix}
    {toBlock : X → CovarianceBlock} (hset : Setter setBlock toBlock) (is : List ℕ) (xs : List X)
    {cov : ExperimentCovariance} (hlen : cov.covMatrices.length = cov.numBlocks)
    (hvalid : ∀ e ∈ is.zip (xs.map toBlock), e.1 < cov.numBlocks ∧ e.2.Valid)
    (hnodup : ((is.zip (xs.map toBlock)).map Prod.fst).Nodup) :
    ∃ cov', setBlocks indexMap setBlock dof (is.zip xs) cov = .ok cov' ∧
      Sets cov cov' (is.zip (xs.map toBlock)) ∧
      cov'.numDOF = cov.numDOF + ((is.zip xs).map fun e => dof e.2).sum := by
  rw [List.zip_map_right] at hvalid hnodup ⊢
  refine setBlocks_sets indexMap hset (is.zip xs) cov hlen
    (fun e he => hvalid _ (List.mem_map_of_mem (f := Prod.map id toBlock) he)) ?_
  rwa [List.map_map] at hnodup

theorem resize_getD (blocks : List CovarianceMatrix) {n k : ℕ} (hk : k < n) :
    (resize blocks n).getD k {} = blocks.getD k {} := by
  rw [resize, List.getD_eq_getElem _ _ (by simpa using hk), List.getElem_map, List.getElem_range]

section Set

variable (la : ExactCholesky)

theorem setter_full : Setter (CovarianceMatrix.setCovariance la) .full := by
  intro c a ha
  obtain ⟨c', hc', hstored, hdiag⟩ := CovarianceMatrix.setCovariance_stored la c ha
  exact ⟨c', hc', hstored, fun h _ => by rw [hdiag, h]⟩

theorem setter_diagonal :
    Setter (fun c d => .ok (c.setCovarianceDiagonal d)) CovarianceBlock.diagonal := fun c d _ =>
  ⟨_, rfl, c.setCovarianceDiagonal_stored d, fun _ h => by cases h⟩

theorem setter_scalar : Setter (fun c x => .ok (c.setCovarianceScalar x))
    (fun x => .diagonal ⟨1, fun _ => x⟩) := fun c x _ =>
  ⟨_, rfl, c.setCovarianceDiagonal_stored ⟨1, fun _ => x⟩, fun _ h => by cases h⟩

/-- The three loops set all the blocks given. -/
theorem setCovarianceMatrices_sets (before : ExperimentCovariance) {given : CovarianceInput}
    (h : given.Valid) : ∃ cov, before.setCovarianceMatrices la given = .ok cov ∧
      Sets ⟨resize before.covMatrices given.numBlocks, given.numBlocks, 0⟩ cov given.entries ∧
      cov.numDOF = (given.entries.map fun e => e.2.size).sum := by
  have hvalid := h.entries_valid
  have hnodup := h.entries_nodup
  rw [CovarianceInput.entries] at hvalid hnodup ⊢
  have hnodup₂₃ := (List.nodup_append.mp (List.map_append ▸ hnodup)).2.1
  let cov₀ : ExperimentCovariance :=
    ⟨resize before.covMatrices given.numBlocks, given.numBlocks, 0⟩
  have hlen₀ : cov₀.covMatrices.length = cov₀.numBlocks := by simp [cov₀, resize]
  obtain ⟨cov₁, hrun₁, hsets₁, hdof₁⟩ := setBlocks_zip "matrix_map_indices" RealMatrix.numRows
    (setter_full la) given.matrixMapIndices given.matrices hlen₀
    (fun e he => hvalid e (List.mem_append_left _ he))
    (List.nodup_append.mp (List.map_append ▸ hnodup)).1
  have hlen₁ : cov₁.covMatrices.length = cov₁.numBlocks := by
    rw [hsets₁.length, hsets₁.numBlocks, hlen₀]
  obtain ⟨cov₂, hrun₂, hsets₂, hdof₂⟩ := setBlocks_zip "diagonal_map_indices" RealVector.length
    setter_diagonal given.diagonalMapIndices given.diagonals hlen₁
    (fun e he => hsets₁.numBlocks.symm ▸
      hvalid e (List.mem_append_right _ (List.mem_append_left _ he)))
    (List.nodup_append.mp (List.map_append ▸ hnodup₂₃)).1
  have hlen₂ : cov₂.covMatrices.length = cov₂.numBlocks := by
    rw [hsets₂.length, hsets₂.numBlocks, hlen₁]
  obtain ⟨cov₃, hrun₃, hsets₃, hdof₃⟩ := setBlocks_zip "scalar_map_indices" (fun _ => 0)
    setter_scalar given.scalarMapIndices given.scalars hlen₂
    (fun e he => (hsets₂.numBlocks.trans hsets₁.numBlocks).symm ▸
      hvalid e (List.mem_append_right _ (List.mem_append_right _ he)))
    (List.nodup_append.mp (List.map_append ▸ hnodup₂₃)).2.1
  refine ⟨{ cov₃ with numDOF := cov₃.numDOF + given.scalars.length }, ?_, ?_, ?_⟩
  · rw [setCovarianceMatrices, if_neg (not_not.mpr h.matrices_length),
      if_neg (not_not.mpr h.diagonals_length), if_neg (not_not.mpr h.scalars_length)]
    refine Outcome.bind_eq_ok.mpr ⟨cov₁, hrun₁, Outcome.bind_eq_ok.mpr ⟨cov₂, hrun₂,
      Outcome.bind_eq_ok.mpr ⟨cov₃, hrun₃, rfl⟩⟩⟩
  · have hsets := hsets₁.trans (hsets₂.trans hsets₃ hnodup₂₃) hnodup
    exact ⟨hsets.numBlocks, hsets.length, hsets.stored, hsets.clean, hsets.frame⟩
  · have hscalars : ((given.scalarMapIndices.zip given.scalars).map fun _ => 1).sum =
        given.scalars.length := by
      simp [List.map_const', h.scalars_length]
    simp only [List.zip_map_right, List.map_append, List.sum_append, List.map_map,
      Function.comp_def, Prod.map_snd, CovarianceBlock.size, hscalars, hdof₃, hdof₂, hdof₁, cov₀]
    simp [add_assoc]

/-- The object holds the blocks in the order of their indices. -/
theorem setCovarianceMatrices_holds (before : ExperimentCovariance) {given : CovarianceInput}
    (h : given.Valid) : ∃ cov, before.setCovarianceMatrices la given = .ok cov ∧
      cov.Holds given.blocks ∧
      ((∀ c ∈ before.covMatrices, c.covDiagonal.length = 0) → ∀ c ∈ cov.covMatrices, Clean c) := by
  obtain ⟨cov, hrun, hsets, hdof⟩ := setCovarianceMatrices_sets la before h
  have hlen : cov.covMatrices.length = given.numBlocks := by
    rw [hsets.length]
    simp [resize]
  -- block `k` of the object and block `k` of the input
  have hat : ∀ k < given.numBlocks, ∃ b, (k, b) ∈ given.entries ∧
      (given.entries.lookup k).getD (.diagonal {}) = b ∧
      (cov.covMatrices.getD k {}).Stored b := fun k hk => by
    obtain ⟨b, hb, hlook⟩ := h.exists_entry hk
    exact ⟨b, hb, hlook, hsets.stored _ hb⟩
  refine ⟨cov, hrun, ⟨?_, h.blocks_valid, hsets.numBlocks.trans hlen.symm, ?_⟩, ?_⟩
  · refine List.forall₂_iff_get.mpr ⟨by simp [CovarianceInput.blocks, hlen], fun k hk hk' => ?_⟩
    obtain ⟨b, -, hlook, hstored⟩ := hat k (hlen ▸ hk)
    rw [List.getD_eq_getElem _ _ hk] at hstored
    simpa [CovarianceInput.blocks, hlook] using hstored
  · calc cov.numDOF = (given.entries.map fun e => e.2.size).sum := hdof
      _ = ((given.entries.map Prod.fst).map
          fun k => (cov.covMatrices.getD k {}).numDOF).sum := by
        rw [List.map_map]
        congr 1
        exact List.map_congr_left fun e he => ((hsets.stored e he).numDOF_eq).symm
      _ = ((List.range given.numBlocks).map
          fun k => (cov.covMatrices.getD k {}).numDOF).sum := (h.entries_perm.map _).sum_eq
      _ = startOf cov.covMatrices := by
        rw [startOf, total, ← hlen]
        congr 1
        refine List.ext_getElem (by simp) fun k hk hk' => ?_
        simp at hk'
        simp [List.getElem?_eq_getElem hk']
  · intro hbefore c hc
    obtain ⟨k, hk, rfl⟩ := List.getElem_of_mem hc
    obtain ⟨b, hb, -⟩ := h.exists_entry (hlen ▸ hk)
    have hnone :
        ((resize before.covMatrices given.numBlocks).getD k {}).covDiagonal.length = 0 := by
      rw [resize_getD _ (hlen ▸ hk)]
      by_cases hkb : k < before.covMatrices.length
      · rw [List.getD_eq_getElem _ _ hkb]
        exact hbefore _ (List.getElem_mem hkb)
      · rw [List.getD_eq_default _ _ (not_lt.mp hkb)]
    have := hsets.clean _ hb hnone
    rwa [List.getD_eq_getElem _ _ hk] at this

end Set

section Copy

variable (la : ExactCholesky)

theorem copies_stored {source : List CovarianceMatrix} {blocks : List CovarianceBlock}
    (hstored : List.Forall₂ CovarianceMatrix.Stored source blocks)
    (hvalid : ∀ b ∈ blocks, b.Valid) (hclean : ∀ c ∈ source, Clean c) :
    ∀ targets : List CovarianceMatrix, targets.length = source.length →
      ∃ copies, ((targets.zip source).mapM fun (c, s) => c.copy la s) = .ok copies ∧
        List.Forall₂ CovarianceMatrix.Stored copies blocks := by
  induction hstored with
  | nil => exact fun targets _ => ⟨[], by simp; rfl, .nil⟩
  | @cons s b source blocks hs _ ih =>
    intro targets hlen
    obtain ⟨c, targets, rfl⟩ := List.exists_cons_of_length_eq_add_one hlen
    obtain ⟨c', hc', hstored⟩ := c.copy_stored la (hvalid b List.mem_cons_self) hs
      (hclean s List.mem_cons_self)
    obtain ⟨copies, hrun, hcopies⟩ := ih (fun b hb => hvalid b (List.mem_cons_of_mem _ hb))
      (fun c hc => hclean c (List.mem_cons_of_mem _ hc)) targets (Nat.succ.inj hlen)
    refine ⟨c' :: copies, ?_, .cons hstored hcopies⟩
    exact Outcome.mapM_eq_ok.mpr (.cons hc' (Outcome.mapM_eq_ok.mp hrun))

/-- A copy over any object holds the same blocks. -/
theorem assign_holds (old : ExperimentCovariance) {source : ExperimentCovariance}
    {blocks : List CovarianceBlock} (h : source.Holds blocks)
    (hclean : ∀ c ∈ source.covMatrices, Clean c) :
    ∃ cov, old.assign la source = .ok cov ∧ cov.Holds blocks := by
  obtain ⟨copies, hrun, hcopies⟩ := copies_stored la h.stored h.valid hclean
    (resize old.covMatrices source.covMatrices.length) (by simp [resize])
  refine ⟨⟨copies, source.numBlocks, source.numDOF⟩,
    Outcome.bind_eq_ok.mpr ⟨copies, hrun, rfl⟩, hcopies, h.valid, ?_, ?_⟩
  · rw [h.numBlocks_eq, h.stored.length_eq, hcopies.length_eq]
  · rw [h.numDOF_eq, startOf_eq_size h.stored, startOf_eq_size hcopies]

end Copy

/-! ## Exactly when the views agree -/

/-- The dense matrix and the other views describe one matrix. -/
structure ViewsAgree (cov : ExperimentCovariance) (present : ℕ → Bool) : Prop where
  rows : (cov.denseCovariance {}).numRows = cov.numDOF
  views : cov.ViewsOf (square cov.numDOF (cov.denseCovariance {}).get)
  maps : ∃ w, cov.MapsWith w ∧ cov.HessiansMapWith present w

/-- The views agree for the object that was set and for a copy of it, over whatever the two objects
had before, and the dense matrices are the same. -/
def ViewsAgreeAfter (la : ExactCholesky) (before old : ExperimentCovariance)
    (given : CovarianceInput) (present : ℕ → Bool) : Prop :=
  ∃ cov copy, before.setCovarianceMatrices la given = .ok cov ∧ old.assign la cov = .ok copy ∧
    cov.ViewsAgree present ∧ copy.ViewsAgree present ∧ copy.numDOF = cov.numDOF ∧
    square cov.numDOF (copy.denseCovariance {}).get =
      square cov.numDOF (cov.denseCovariance {}).get

end ExperimentCovariance

open ExperimentCovariance

/-- No full block, and a diagonal block without its first Hessian has no other to scale. -/
def CovarianceBlock.ViewSafe (present : ℕ → Bool) (start : ℕ) : CovarianceBlock → Prop
  | .full _ => False
  | .diagonal d => present start = true ∨
      ∀ i < d.length, present (start + i) = true → d.values i = 1

def CovarianceInput.ViewsSafe (given : CovarianceInput) (present : ℕ → Bool) : Prop :=
  ∀ pre b post, given.blocks = pre ++ b :: post →
    b.ViewSafe present (total CovarianceBlock.size pre)

namespace ExperimentCovariance

variable {cov : ExperimentCovariance} {blocks : List CovarianceBlock} {present : ℕ → Bool}

/-- Where a block of the input is in the object. -/
theorem Holds.locate (h : cov.Holds blocks) {pre post : List CovarianceBlock}
    {b : CovarianceBlock} (hb : blocks = pre ++ b :: post) :
    ∃ pre' c post', cov.covMatrices = pre' ++ c :: post' ∧ c.Stored b ∧
      startOf pre' = total CovarianceBlock.size pre := by
  have hstored := hb ▸ h.stored
  have hleft := List.forall₂_take_append _ _ _ hstored
  obtain ⟨c, post', hc, -, hdrop⟩ :=
    List.forall₂_cons_right_iff.mp (List.forall₂_drop_append _ _ _ hstored)
  refine ⟨cov.covMatrices.take pre.length, c, post', ?_, hc, startOf_eq_size hleft⟩
  rw [← hdrop, List.take_append_drop]

/-- The diagonal of a full block is missing in the dense matrix, and it is there in the main
diagonal. -/
theorem Holds.no_full (h : cov.Holds blocks) (hviews : cov.ViewsAgree present) (a : RealMatrix) :
    .full a ∉ blocks := by
  intro ha
  obtain ⟨pre, post, hb⟩ := List.append_of_mem ha
  obtain ⟨pre', c, post', hc, hstored, -⟩ := h.locate hb
  have hpos := h.numDOF_pos hc
  have hm : startOf pre' + 0 < cov.numDOF := by
    have := h.end_le hc
    omega
  have hvalid := h.valid _ ha
  have hdiag : 0 < c.getMainDiagonal.values 0 := by
    rw [CovarianceMatrix.getMainDiagonal_eq hstored hpos]
    exact hvalid.cov_diag_pos (hstored.numDOF_eq ▸ hpos)
  have hzero : (cov.denseCovariance {}).get (startOf pre' + 0) (startOf pre' + 0) = 0 := by
    rw [ExperimentCovariance.denseCovariance,
      symBlocks_run cov _ (fun _ => rfl) pre' c post' hc 0 hpos, if_pos (by omega),
      Nat.add_sub_cancel_left, CovarianceMatrix.denseCovariance_full_diag hstored]
  have hsame := hviews.views.mainDiagonal.2 ⟨_, hm⟩
  rw [cov.mainDiagonal_run pre' c post' hc 0 hpos, square_apply, hzero] at hsame
  exact hdiag.ne' hsame

theorem Holds.isDiagonal (h : cov.Holds blocks) (hnone : ∀ a, .full a ∉ blocks) :
    ∀ c ∈ cov.covMatrices, c.covIsDiagonal = true := by
  intro c hc
  obtain ⟨k, rfl⟩ := List.get_of_mem hc
  have hstored := h.stored_block k
  have hmem : h.block k ∈ blocks := List.get_mem _ _
  cases hb : h.block k with
  | full a => exact absurd (hb ▸ hmem) (hnone a)
  | diagonal d =>
    rw [hb] at hstored
    exact hstored.1

theorem Holds.viewsSafe (h : cov.Holds blocks) (hviews : cov.ViewsAgree present)
    {pre post : List CovarianceBlock} {b : CovarianceBlock} (hb : blocks = pre ++ b :: post) :
    b.ViewSafe present (total CovarianceBlock.size pre) := by
  have hdiag := h.isDiagonal (h.no_full hviews)
  cases b with
  | full a => exact h.no_full hviews a (by simp [hb])
  | diagonal d =>
    obtain ⟨w, hw, hhess⟩ := hviews.maps
    obtain ⟨pre', c, post', hc, ⟨-, hdof, -, hval⟩, hstart⟩ := h.locate hb
    rw [← hstart]
    refine (h.skipHarmless hdiag hw hhess hc).imp id fun hone i hi hp => ?_
    rw [← hval i hi]
    exact hone i (hdof ▸ hi) hp

theorem not_full_of_safe (hsafe : ∀ pre b post, blocks = pre ++ b :: post →
    b.ViewSafe present (total CovarianceBlock.size pre)) (a : RealMatrix) :
    .full a ∉ blocks := fun ha => by
  obtain ⟨pre, post, hb⟩ := List.append_of_mem ha
  exact hsafe pre _ post hb

/-- Without full blocks, and with nothing to scale in the blocks that are skipped. -/
theorem Holds.viewsAgree (h : cov.Holds blocks)
    (hsafe : ∀ pre b post, blocks = pre ++ b :: post →
      b.ViewSafe present (total CovarianceBlock.size pre)) : cov.ViewsAgree present := by
  refine ⟨cov.symBlocks_numRows _, ?_, h.root, h.mapsWith, h.hessiansMapWith ?_⟩
  · rw [h.square_dense_eq (h.isDiagonal (not_full_of_safe hsafe))]
    exact h.viewsOf
  · intro pre c post hc _
    have hstored := (hc ▸ h.stored).flip
    have hleft := List.forall₂_take_append _ _ _ hstored
    obtain ⟨b, post', hb, -, hdrop⟩ :=
      List.forall₂_cons_right_iff.mp (List.forall₂_drop_append _ _ _ hstored)
    have hblocks : blocks = blocks.take pre.length ++ b :: post' := by
      rw [← hdrop, List.take_append_drop]
    have hview := hsafe _ _ _ hblocks
    rw [startOf_eq_size hleft.flip]
    cases b with
    | full a => exact hview.elim
    | diagonal d =>
      obtain ⟨-, hdof, -, hval⟩ := hb
      refine hview.imp id fun hone i hi hp => ?_
      rw [hval i (hdof ▸ hi)]
      exact hone i (hdof ▸ hi) hp

/-- Without full blocks the dense matrix depends on the blocks only. -/
theorem Holds.dense_get (h : cov.Holds blocks) (hnone : ∀ a, .full a ∉ blocks)
    (i j : Fin cov.numDOF) :
    (cov.denseCovariance {}).get i j = CovarianceBlock.covOf blocks i j :=
  congrFun (congrFun ((h.square_dense_eq (h.isDiagonal hnone)).trans h.matrix_eq_covOf) i) j

end ExperimentCovariance

/-- All views of a block covariance describe one matrix, copied or not, exactly when no block is
full and no diagonal block with something to scale lacks its first Hessian. -/
theorem viewsAgree_iff (la : ExactCholesky) (before old : ExperimentCovariance)
    {given : CovarianceInput} (h : given.Valid) (present : ℕ → Bool) :
    ViewsAgreeAfter la before old given present ↔ given.ViewsSafe present := by
  obtain ⟨cov, hrun, hholds, -⟩ := setCovarianceMatrices_holds la before h
  constructor
  · rintro ⟨cov', copy, hrun', -, hviews, -⟩
    rw [hrun] at hrun'
    cases hrun'
    exact fun pre b post hb => hholds.viewsSafe hviews hb
  · intro hsafe
    have hnone := not_full_of_safe hsafe
    obtain ⟨copy, hcopy, hholds'⟩ := assign_holds la old hholds fun c hc hfull => by
      rw [hholds.isDiagonal hnone c hc] at hfull
      cases hfull
    have hdof : copy.numDOF = cov.numDOF := by
      rw [hholds.numDOF_eq, hholds'.numDOF_eq, startOf_eq_size hholds.stored,
        startOf_eq_size hholds'.stored]
    refine ⟨cov, copy, hrun, hcopy, hholds.viewsAgree hsafe, hholds'.viewsAgree hsafe, hdof, ?_⟩
    ext i j
    rw [square_apply, square_apply, hholds.dense_get hnone]
    exact hholds'.dense_get hnone ⟨i, i.2.trans_eq hdof.symm⟩ ⟨j, j.2.trans_eq hdof.symm⟩

/-- A scalar block before a diagonal one, whose second Hessian is absent. -/
def scalarThenDiagonal : CovarianceInput where
  diagonals := [⟨2, fun i => i + 1⟩]
  scalars := [4]
  diagonalMapIndices := [1]
  scalarMapIndices := [0]

theorem scalarThenDiagonal_valid : scalarThenDiagonal.Valid where
  matrices_length := rfl
  diagonals_length := rfl
  scalars_length := rfl
  matrices := by simp [scalarThenDiagonal]
  diagonals d hd := by
    cases List.mem_singleton.mp hd
    exact ⟨two_pos, fun i _ => by positivity⟩
  scalars x hx := by
    cases List.mem_singleton.mp hx
    norm_num
  bijection := by decide

theorem scalarThenDiagonal_viewsAgree :
    ViewsAgreeAfter .ofLDL {} {} scalarThenDiagonal (fun m => m != 2) := by
  refine (viewsAgree_iff .ofLDL {} {} scalarThenDiagonal_valid _).mpr fun pre b post hb => ?_
  have hblocks : scalarThenDiagonal.blocks =
      [.diagonal ⟨1, fun _ => 4⟩, .diagonal ⟨2, fun i => i + 1⟩] := rfl
  rw [hblocks] at hb
  -- both blocks have their first Hessian
  match pre, hb with
  | [], hb =>
    cases hb
    exact .inl rfl
  | [_], hb =>
    cases hb
    exact .inl rfl
  | _ :: _ :: pre, hb => simp at hb

/-- One full block, of one residual with variance one. -/
def oneFullBlock : CovarianceInput where
  matrices := [⟨1, 1, fun _ _ => 1⟩]
  matrixMapIndices := [0]

theorem oneFullBlock_valid : oneFullBlock.Valid where
  matrices_length := rfl
  diagonals_length := rfl
  scalars_length := rfl
  matrices a ha := by
    cases List.mem_singleton.mp ha
    refine ⟨one_pos, rfl, ?_⟩
    have hone : square 1 (fun _ _ => 1) = 1 := by
      ext i j
      rw [Subsingleton.elim i j]
      simp
    exact hone ▸ PosDef.one
  diagonals := by simp [oneFullBlock]
  scalars := by simp [oneFullBlock]
  bijection := by decide

/-- The dense matrix has a zero where the main diagonal has the variance. -/
theorem not_viewsAgree_oneFullBlock : ¬ ∀ (la : ExactCholesky)
    (before old : ExperimentCovariance) (given : CovarianceInput) (present : ℕ → Bool),
    given.Valid → ViewsAgreeAfter la before old given present := by
  intro hall
  obtain ⟨cov, copy, hset, -, hviews, -⟩ :=
    hall .ofLDL {} {} oneFullBlock (fun _ => true) oneFullBlock_valid
  obtain ⟨cov', hset', hholds, -⟩ := setCovarianceMatrices_holds .ofLDL {} oneFullBlock_valid
  rw [hset] at hset'
  cases hset'
  exact hholds.no_full hviews ⟨1, 1, fun _ _ => 1⟩ (List.mem_singleton.mpr rfl)

/-- Full blocks included: set in a fresh object and copied to a fresh object, all views but the
dense matrix are views of the block-diagonal matrix. -/
theorem viewsOf_covOf (la : ExactCholesky) {given : CovarianceInput} (h : given.Valid) :
    ∃ cov copy : ExperimentCovariance,
      ({} : ExperimentCovariance).setCovarianceMatrices la given = .ok cov ∧
      ({} : ExperimentCovariance).assign la cov = .ok copy ∧
      cov.ViewsOf (square cov.numDOF (CovarianceBlock.covOf given.blocks)) ∧
      copy.ViewsOf (square copy.numDOF (CovarianceBlock.covOf given.blocks)) ∧
      (∃ w, cov.MapsWith w) ∧ ∃ w, copy.MapsWith w := by
  obtain ⟨cov, hrun, hholds, hclean⟩ := setCovarianceMatrices_holds la {} h
  obtain ⟨copy, hcopy, hholds'⟩ := assign_holds la {} hholds (hclean (by simp))
  exact ⟨cov, copy, hrun, hcopy, hholds.matrix_eq_covOf ▸ hholds.viewsOf,
    hholds'.matrix_eq_covOf ▸ hholds'.viewsOf, ⟨_, hholds.mapsWith⟩, _, hholds'.mapsWith⟩

end Dakota
