import Dakota.Calibration.FieldInterpolation
import Dakota.Lib.Outcome

/-!
# The interpolant of field data

* `searchLoop_spec`: the loop keeps what lies below `low` and above `high` apart; it ends at the
  last build point that is not after the target.
* `predictPoint_eq`: the three branches follow one rule, `Combines`.
* `fieldInterpolation`: every quantity is the piecewise linear interpolant, and no step faults.
-/

namespace Dakota

namespace FieldInterp

open Outcome

variable {K : Type} [Field K] [LinearOrder K]

/-! ## The search -/

section Search

variable {target : K} {data : List K}

omit [Field K] in
theorem searchLoop_spec (hne : 0 < data.length) (hasc : data.Pairwise (· < ·)) {low high : ℤ}
    (hlow : 0 ≤ low) (hhigh : high < data.length) (hle : low ≤ high + 1)
    (hbelow : ∀ j : ℕ, (hj : j < data.length) → (j : ℤ) < low → data[j] < target)
    (habove : ∀ j : ℕ, (hj : j < data.length) → high < (j : ℤ) → target < data[j]) :
    ∃ index : ℕ, searchLoop target data low high = .ok (index : ℤ) ∧ ∃ h : index < data.length,
      (data[index] ≤ target ∨ index = 0) ∧
      ∀ j, (hj : j < data.length) → index < j → target < data[j] := by
  induction hn : (high - low + 1).toNat using Nat.strong_induction_on generalizing low high with
  | _ n ih =>
    rw [searchLoop]
    by_cases hloop : low ≤ high
    · rw [if_pos hloop]
      obtain ⟨mid, hmid⟩ := Int.eq_ofNat_of_zero_le
        (Int.add_nonneg hlow (Int.ediv_nonneg (sub_nonneg.mpr hloop) zero_le_two))
      have hlowMid : low ≤ mid := by omega
      have hmidHigh : (mid : ℤ) ≤ high := by omega
      have hlt : mid < data.length := by omega
      rw [hmid, readAt_eq hlt]
      change ∃ index : ℕ, (if target < data[mid] then _ else _ : Except Fault ℤ) = _ ∧ _
      rcases lt_trichotomy target data[mid] with h | h | h
      · -- everything from `mid` on is above the target
        rw [if_pos h]
        refine ih _ (by omega) hlow (by omega) (by omega) hbelow (fun j hj hmj => ?_) rfl
        rcases eq_or_lt_of_le (show mid ≤ j by omega) with rfl | hlt'
        · exact h
        · exact h.trans (List.pairwise_iff_getElem.mp hasc mid j hlt hj hlt')
      · rw [if_neg h.not_lt, if_neg h.not_gt]
        exact ⟨mid, rfl, hlt, .inl h.ge, fun j hj hmj =>
          h.trans_lt (List.pairwise_iff_getElem.mp hasc mid j hlt hj hmj)⟩
      · -- everything up to `mid` is below the target
        rw [if_neg h.not_gt, if_pos h]
        refine ih _ (by omega) (by omega) hhigh (by omega) (fun j hj hjm => ?_) habove rfl
        rcases eq_or_lt_of_le (show j ≤ mid by omega) with rfl | hlt'
        · exact h
        · exact (List.pairwise_iff_getElem.mp hasc j mid hj hlt hlt').trans h
    · rw [if_neg hloop]
      by_cases hneg : high < 0
      · rw [if_pos hneg]
        exact ⟨0, rfl, hne, .inr rfl, fun j hj _ => habove j hj (by omega)⟩
      · rw [if_neg hneg, if_pos (by omega)]
        obtain ⟨index, rfl⟩ := Int.eq_ofNat_of_zero_le (not_lt.mp hneg)
        have hlt : index < data.length := by omega
        exact ⟨index, rfl, hlt, .inl (hbelow index hlt (by omega)).le, fun j hj hij =>
          habove j hj (by omega)⟩

omit [Field K] in
/-- A target inside the range: the interval that contains it. -/
theorem binarySearch_inside (hne : 0 < data.length) (hasc : data.Pairwise (· < ·))
    (hfirst : data[0] < target) (hlast : target < data[data.length - 1]) :
    ∃ index : ℕ, binarySearch target data = .ok (index : ℤ) ∧
      ∃ h : index + 1 < data.length, data[index] ≤ target ∧ target < data[index + 1] := by
  have hhigh : (data.length : ℤ) - 1 < data.length := by omega
  obtain ⟨index, hok, hlt, hle, hgt⟩ := searchLoop_spec hne hasc le_rfl hhigh (by omega)
    (fun j _ hj => by omega) (fun j hj hj' => by omega)
  have hle' : data[index] ≤ target := by
    rcases hle with h | rfl
    · exact h
    · exact hfirst.le
  have hnext : index + 1 < data.length := by
    by_contra hnot
    have hidx : index = data.length - 1 := by omega
    subst hidx
    exact hlast.not_ge hle'
  exact ⟨index, hok, hnext, hle', hgt (index + 1) hnext (Nat.lt_succ_self index)⟩

end Search

/-! ## The arrays that are filled -/

section Fill

omit [Field K] [LinearOrder K]

variable {b : Build K} {combine : Build.Combine K} {i : ℕ} {out : Pred K}

theorem setVal_spec {v : K} (hv : combine (readAt b.vals) = .ok v) (hi : i < out.vals.length) :
    b.setVal combine i out = .ok { out with vals := out.vals.set i v } := by
  rw [Build.setVal, hv, ok_bind, writeAt_eq hi]
  rfl

theorem setGrads_none (h : b.grads.numRows = 0) : b.setGrads combine i out = .ok out := by
  rw [Build.setGrads, h]
  rfl

theorem setGrads_spec {g : ℕ → K} (hg : ∀ k < b.grads.numRows, combine (b.grads.read k) = .ok (g k))
    (hrows : out.grads.numRows = b.grads.numRows) (hi : i < out.grads.numCols) :
    ∃ grads, b.setGrads combine i out = .ok { out with grads := grads } ∧
      grads.numRows = b.grads.numRows ∧ grads.numCols = out.grads.numCols ∧
      (∀ k < b.grads.numRows, grads.entry k i = g k) ∧
      ∀ k c, c ≠ i → grads.entry k c = out.grads.entry k c := by
  let inv (n : ℕ) (m : Matrix K) : Prop :=
    m.numRows = b.grads.numRows ∧ m.numCols = out.grads.numCols ∧
      (∀ k < n, m.entry k i = g k) ∧ ∀ k c, c ≠ i → m.entry k c = out.grads.entry k c
  have hpass : ∀ n m, n < b.grads.numRows → inv n m →
      ∃ m', (do let v ← combine (b.grads.read n); m.write n i v) = .ok m' ∧ inv (n + 1) m' := by
    rintro n m hn ⟨hr, hc, hset, hkeep⟩
    have hwrite : n < m.numRows ∧ i < m.numCols := ⟨hr ▸ hn, hc ▸ hi⟩
    rw [hg n hn, ok_bind, Matrix.write, if_pos hwrite]
    refine ⟨_, rfl, hr, hc, fun k hk => ?_, fun k c hci => ?_⟩
    · by_cases hkn : k = n
      · subst hkn
        exact if_pos ⟨rfl, rfl⟩
      · exact (if_neg fun h => hkn h.1).trans (hset k (by omega))
    · exact (if_neg fun h => hci h.2).trans (hkeep k c hci)
  obtain ⟨grads, hok, hr, hc, hset, hkeep⟩ := foldlM_range_inv _ out.grads b.grads.numRows inv
    ⟨hrows, rfl, nofun, fun _ _ _ => rfl⟩ hpass
  refine ⟨grads, ?_, hr, hc, hset, hkeep⟩
  rw [Build.setGrads, hok]
  rfl

theorem get_write {m m' : SymMatrix K} {j k : ℕ} {a : K} (hjk : j ≤ k) (hk : k < m.numRows)
    (hw : m.write j k a = .ok m') :
    m'.numRows = m.numRows ∧ ∀ j' k', j' ≤ k' →
      m'.get j' k' = if j' = j ∧ k' = k then a else m.get j' k' := by
  rw [SymMatrix.write, if_pos ⟨hjk.trans_lt hk, hk⟩] at hw
  cases hw
  refine ⟨rfl, fun j' k' hjk' => if_congr ?_ rfl rfl⟩
  rw [max_eq_right hjk, min_eq_left hjk, max_eq_right hjk', min_eq_left hjk']
  exact and_comm

/-- One pass of the outer loop stores one column of the upper triangle. -/
theorem fillColumn_spec {v : ℕ → ℕ → K} {hess : SymMatrix K} {k : ℕ} (hk : k < hess.numRows)
    (hv : ∀ j ≤ k, combine (b.readHessian j k) = .ok (v j k)) :
    ∃ hess', (List.range (k + 1)).foldlM (fun m (j : ℕ) => do
        let a ← combine (b.readHessian j k)
        m.write j k a) hess = .ok hess' ∧ hess'.numRows = hess.numRows ∧
      (∀ j ≤ k, hess'.get j k = v j k) ∧
      ∀ j' k', j' ≤ k' → k' ≠ k → hess'.get j' k' = hess.get j' k' := by
  let inv (n : ℕ) (m : SymMatrix K) : Prop :=
    m.numRows = hess.numRows ∧ (∀ j < n, j ≤ k → m.get j k = v j k) ∧
      ∀ j' k', j' ≤ k' → k' ≠ k → m.get j' k' = hess.get j' k'
  have hpass : ∀ n m, n < k + 1 → inv n m →
      ∃ m', (do let a ← combine (b.readHessian n k); m.write n k a) = .ok m' ∧ inv (n + 1) m' := by
    rintro n m hn ⟨hr, hset, hkeep⟩
    have hnk : n ≤ k := Nat.lt_succ_iff.mp hn
    obtain ⟨m', hm'⟩ : ∃ m', m.write n k (v n k) = .ok m' :=
      ⟨_, if_pos ⟨by omega, by omega⟩⟩
    obtain ⟨hr', hget⟩ := get_write hnk (by omega) hm'
    rw [hv n hnk, ok_bind, hm']
    refine ⟨m', rfl, hr'.trans hr, fun j hj hjk => ?_, fun j' k' hjk' hk' => ?_⟩
    · rw [hget j k hjk]
      by_cases hjn : j = n
      · subst hjn
        exact if_pos ⟨rfl, rfl⟩
      · rw [if_neg fun h => hjn h.1]
        exact hset j (by omega) hjk
    · rw [hget j' k' hjk', if_neg fun h => hk' h.2]
      exact hkeep j' k' hjk' hk'
  obtain ⟨hess', hok, hr, hset, hkeep⟩ := foldlM_range_inv _ hess (k + 1) inv
    ⟨rfl, nofun, fun _ _ _ _ => rfl⟩ hpass
  exact ⟨hess', hok, hr, fun j hj => hset j (Nat.lt_succ_of_le hj) hj, hkeep⟩

/-- Both loops together store the upper triangle. -/
theorem fillHessian_spec {v : ℕ → ℕ → K} {hess : SymMatrix K}
    (hv : ∀ k < b.grads.numRows, ∀ j ≤ k, combine (b.readHessian j k) = .ok (v j k))
    (hrows : hess.numRows = b.grads.numRows) :
    ∃ hess', b.fillHessian combine hess = .ok hess' ∧ hess'.numRows = b.grads.numRows ∧
      ∀ k < b.grads.numRows, ∀ j ≤ k, hess'.get j k = v j k := by
  refine foldlM_range_inv _ hess b.grads.numRows
    (fun n h => h.numRows = b.grads.numRows ∧ ∀ k < n, ∀ j ≤ k, h.get j k = v j k)
    ⟨hrows, nofun⟩ fun n h hn hinv => ?_
  obtain ⟨h', hok, hr, hset, hkeep⟩ := fillColumn_spec (hinv.1 ▸ hn) (hv n hn)
  refine ⟨h', hok, hr.trans hinv.1, fun k hk j hj => ?_⟩
  rcases Nat.lt_succ_iff_lt_or_eq.mp hk with hlt | rfl
  · rw [hkeep j k hj hlt.ne]
    exact hinv.2 k hlt j hj
  · exact hset j hj

theorem setHessian_spec (uninit : ℕ → ℕ → K) {v : ℕ → ℕ → K}
    (hv : ∀ k < b.grads.numRows, ∀ j ≤ k, combine (b.readHessian j k) = .ok (v j k))
    (hi : i < out.hessians.length) :
    ∃ hess, b.setHessian uninit combine i out =
        .ok { out with hessians := out.hessians.set i hess } ∧
      hess.numRows = b.grads.numRows ∧ ∀ k < b.grads.numRows, ∀ j ≤ k, hess.get j k = v j k := by
  have hrows : (if out.hessians[i].numRows ≠ b.numVars then ⟨b.numVars, uninit⟩
      else out.hessians[i]).numRows = b.grads.numRows := by
    split_ifs with h
    · rfl
    · exact not_not.mp h
  obtain ⟨hess, hok, hr, hset⟩ := fillHessian_spec hv hrows
  refine ⟨hess, ?_, hr, hset⟩
  rw [Build.setHessian, readAt_eq hi, ok_bind, hok, ok_bind, writeAt_eq hi]
  rfl

end Fill

/-! ## The build data -/

/-- Field data at one or more build points, in ascending order. Gradients are there for all build
points or for none, and so are Hessians; these come with gradients. -/
structure FieldData (K : Type) [LinearOrder K] where
  coords : List K
  values : List K
  gradients : Matrix K
  hessians : List (SymMatrix K)
  coords_pos : 0 < coords.length
  ascending : coords.Pairwise (· < ·)
  values_length : values.length = coords.length
  gradients_numCols : 0 < gradients.numRows → gradients.numCols = coords.length
  hessians_length : hessians ≠ [] → hessians.length = coords.length
  hessians_numRows : ∀ h ∈ hessians, h.numRows = gradients.numRows
  gradients_of_hessians : hessians ≠ [] → 0 < gradients.numRows

namespace FieldData

variable (d : FieldData K)

def build : Build K := ⟨.ofColumn d.coords, d.values, d.gradients, d.hessians⟩

/-- The piecewise linear interpolant of a quantity that is `y c` at build point `c`. -/
def interpolant (y : ℕ → K) (p : K) : K :=
  piecewiseLinear (d.coords.length - 1) (fun c => d.coords.getD c 0) y p

variable {d} {p : K}

theorem column_pts : d.build.pts.column = d.coords := Matrix.column_ofColumn d.coords

theorem node_eq {c : ℕ} (hc : c < d.coords.length) : d.coords.getD c 0 = d.coords[c] := by
  rw [List.getD_eq_getElem?_getD, List.getElem?_eq_getElem hc, Option.getD_some]

theorem nodes_lt : ∀ c < d.coords.length - 1, d.coords.getD c 0 < d.coords.getD (c + 1) 0 := by
  intro c hc
  have hlt : c + 1 < d.coords.length := by omega
  rw [node_eq (Nat.lt_of_succ_lt hlt), node_eq hlt]
  exact List.pairwise_iff_getElem.mp d.ascending c (c + 1) _ hlt (Nat.lt_succ_self c)

theorem interpGrads_iff : d.build.interpGrads = true ↔ 0 < d.gradients.numRows := by
  simp only [Build.interpGrads, Bool.and_eq_true, decide_eq_true_eq]
  refine ⟨fun h => h.1, fun h => ⟨h, ?_⟩⟩
  exact d.coords_pos.trans_eq (d.gradients_numCols h).symm

theorem interpHessians_iff : d.build.interpHessians = true ↔ d.hessians ≠ [] := by
  simp only [Build.interpHessians, decide_eq_true_eq]
  exact List.length_pos_iff

/-- The branch makes of each quantity its interpolant at `p`. -/
def Combines (d : FieldData K) (combine : Build.Combine K) (p : K) : Prop :=
  ∀ (read : ℤ → Except Fault K) (y : ℕ → K),
    (∀ c : ℕ, c < d.coords.length → read c = .ok (y c)) → combine read = .ok (d.interpolant y p)

theorem combines_first (h : p ≤ d.coords.getD 0 0) : d.Combines (Build.constant 0) p := by
  intro read y hread
  rw [interpolant, piecewiseLinear_of_le nodes_lt h]
  exact hread 0 d.coords_pos

theorem combines_last {last : ℕ} (hlast : last + 1 = d.coords.length)
    (h : d.coords.getD last 0 ≤ p) : d.Combines (Build.constant last) p := by
  intro read y hread
  have hlt : last < d.coords.length := by omega
  have heq : d.coords.length - 1 = last := by omega
  rw [interpolant, piecewiseLinear_of_ge nodes_lt (by rwa [heq]), heq]
  exact hread last hlt

/-- Inside the range: the interval that the search gives, with a difference of nodes that is not
zero. -/
theorem combines_inside {index : ℕ} (hnext : index + 1 < d.coords.length)
    (hl : d.coords[index] ≤ p) (hr : p < d.coords[index + 1]) :
    d.Combines (d.build.linear p index) p := by
  intro read y hread
  have hlt : index < d.coords.length := Nat.lt_of_succ_lt hnext
  have hnode : d.coords[index] < d.coords[index + 1] := hl.trans_lt hr
  have hread' : read ((index : ℤ) + 1) = .ok (y (index + 1)) := hread (index + 1) hnext
  have hx : readAt d.build.pts.column (index : ℤ) = .ok d.coords[index] := by
    rw [column_pts, readAt_eq hlt]
  have hx' : readAt d.build.pts.column ((index : ℤ) + 1) = .ok d.coords[index + 1] := by
    rw [column_pts]
    exact readAt_eq hnext
  have hne : d.coords[index + 1] - d.coords[index] ≠ 0 := sub_ne_zero.mpr hnode.ne'
  rw [interpolant, piecewiseLinear_of_mem nodes_lt (show index < d.coords.length - 1 by omega)
    (by rwa [node_eq hlt]) (by rw [node_eq hnext]; exact hr.le), node_eq hlt, node_eq hnext]
  simp only [Build.linear, hread index hlt, hread', hx, hx']
  exact if_neg hne

/-- The three branches store, in each array, what their rule makes of the build entries. -/
theorem predictPoint_eq (uninit : ℕ → ℕ → K) (p : K) (i : ℕ) (out : Pred K) :
    ∃ combine, d.Combines combine p ∧ d.build.predictPoint uninit p i out = (do
      let out ← d.build.setVal combine i out
      let out ← d.build.setGrads combine i out
      if d.build.interpHessians then d.build.setHessian uninit combine i out else pure out) := by
  obtain ⟨last, hlast⟩ : ∃ last, last + 1 = d.coords.length :=
    ⟨d.coords.length - 1, Nat.sub_add_cancel d.coords_pos⟩
  have hlt : last < d.coords.length := by omega
  have hrows : (d.build.pts.numRows : ℤ) - 1 = last := by
    change (d.coords.length : ℤ) - 1 = last
    omega
  have hfirst : readAt d.build.pts.column 0 = .ok (d.coords.getD 0 0) := by
    rw [column_pts, node_eq d.coords_pos]
    exact readAt_eq d.coords_pos
  have hreadLast : readAt d.build.pts.column (last : ℤ) = .ok (d.coords.getD last 0) := by
    rw [column_pts, node_eq hlt, readAt_eq hlt]
  simp only [Build.predictPoint, hrows, hfirst, hreadLast, ok_bind]
  by_cases h₀ : p ≤ d.coords.getD 0 0
  · exact ⟨_, combines_first h₀, if_pos h₀⟩
  by_cases h₁ : d.coords.getD last 0 ≤ p
  · exact ⟨_, combines_last hlast h₁, (if_neg h₀).trans (if_pos h₁)⟩
  simp only [if_neg h₀, if_neg h₁]
  rw [not_le, node_eq d.coords_pos] at h₀
  rw [not_le, node_eq hlt] at h₁
  have hidx : d.coords.length - 1 = last := by omega
  obtain ⟨index, hok, hnext, hl, hr⟩ := binarySearch_inside d.coords_pos d.ascending h₀
    (by simpa only [hidx] using h₁)
  refine ⟨_, combines_inside hnext hl hr, ?_⟩
  simp only [column_pts, hok, ok_bind]
  refine bind_congr fun out => ?_
  by_cases hgrads : d.build.interpGrads = true
  · rw [if_pos hgrads]
  · have hnone : d.build.grads.numRows = 0 := Nat.eq_zero_of_not_pos (mt interpGrads_iff.mpr hgrads)
    rw [if_neg hgrads, setGrads_none hnone]
    rfl

/-! ## All prediction points -/

/-- The Hessian at build point `c`. -/
def hessian (d : FieldData K) (c : ℕ) : SymMatrix K := d.hessians.getD c ⟨0, fun _ _ => 0⟩

/-- The first `n` prediction points hold the interpolants of the values and of the entries of the
gradients and the Hessians. What is not interpolated is as before. -/
structure Filled (d : FieldData K) (pred : List K) (before : Pred K) (n : ℕ) (out : Pred K) :
    Prop where
  vals_length : out.vals.length = pred.length
  vals : ∀ i, (hi : i < pred.length) → i < n →
    out.vals[i]? = some (d.interpolant (fun c => d.values.getD c 0) pred[i])
  grads_shape : 0 < d.gradients.numRows →
    out.grads.numRows = d.gradients.numRows ∧ out.grads.numCols = pred.length
  grads : ∀ k < d.gradients.numRows, ∀ i, (hi : i < pred.length) → i < n →
    out.grads.entry k i = d.interpolant (fun c => d.gradients.entry k c) pred[i]
  grads_keep : d.gradients.numRows = 0 → out.grads = before.grads
  hessians_length : d.hessians ≠ [] → out.hessians.length = pred.length
  hessians : d.hessians ≠ [] → ∀ i, (hi : i < pred.length) → i < n →
    ∃ hess, out.hessians[i]? = some hess ∧ hess.numRows = d.gradients.numRows ∧
      ∀ j < d.gradients.numRows, ∀ k < d.gradients.numRows,
        hess.get j k = d.interpolant (fun c => (d.hessian c).get j k) pred[i]
  hessians_keep : d.hessians = [] → out.hessians = before.hessians

theorem readAt_values {c : ℕ} (hc : c < d.coords.length) :
    readAt d.build.vals c = .ok (d.values.getD c 0) := by
  have hlt : c < d.values.length := hc.trans_eq d.values_length.symm
  rw [List.getD_eq_getElem?_getD, List.getElem?_eq_getElem hlt]
  exact readAt_eq hlt

theorem read_gradients {k c : ℕ} (hk : k < d.gradients.numRows) (hc : c < d.coords.length) :
    d.build.grads.read k c = .ok (d.gradients.entry k c) :=
  Matrix.read_eq hk (hc.trans_eq (d.gradients_numCols (Nat.zero_lt_of_lt hk)).symm)

theorem readHessian_eq (h : d.hessians ≠ []) {j k c : ℕ} (hj : j < d.gradients.numRows)
    (hk : k < d.gradients.numRows) (hc : c < d.coords.length) :
    d.build.readHessian j k c = .ok ((d.hessian c).get j k) := by
  have hlt : c < d.hessians.length := hc.trans_eq (d.hessians_length h).symm
  have hrows : d.hessians[c].numRows = d.gradients.numRows :=
    d.hessians_numRows _ (List.getElem_mem hlt)
  rw [hessian, List.getD_eq_getElem?_getD, List.getElem?_eq_getElem hlt, Option.getD_some,
    Build.readHessian]
  change (readAt d.hessians c >>= _) = _
  rw [readAt_eq hlt, ok_bind]
  exact if_pos ⟨hrows ▸ hj, hrows ▸ hk⟩

theorem filled_shape (d : FieldData K) (uninit : ℕ → ℕ → K) (pred : List K) (out : Pred K) :
    d.Filled pred out 0 (d.build.shape uninit pred.length out) where
  vals_length := by
    simp only [Build.shape]
    split_ifs with h
    · simp
    · exact not_not.mp h
  vals := nofun
  grads_shape h := by
    have hgrads : d.build.interpGrads = true := interpGrads_iff.mpr h
    simp only [Build.shape, hgrads, true_and]
    split_ifs with hshape
    · exact ⟨rfl, rfl⟩
    · rw [not_or, not_not, not_not] at hshape
      exact hshape
  grads := nofun
  grads_keep h := if_neg fun hand => (interpGrads_iff.mp hand.1).ne' h
  hessians_length h := by
    have hhess : d.build.interpHessians = true := interpHessians_iff.mpr h
    simp only [Build.shape, hhess, true_and]
    split_ifs with hlen
    · rw [List.length_append, List.length_take, List.length_replicate]
      omega
    · exact not_not.mp hlen
  hessians := nofun
  hessians_keep h := if_neg fun hand => interpHessians_iff.mp hand.1 h

theorem set_getElem? {α : Type} {l : List α} {a : α} {i n : ℕ} {post : α → Prop} (hi : i < l.length)
    (ha : i = n → post a) (hl : i < n → ∃ a', l[i]? = some a' ∧ post a') (hin : i < n + 1) :
    ∃ a', (l.set n a)[i]? = some a' ∧ post a' := by
  rw [List.getElem?_set]
  rcases Nat.lt_succ_iff_lt_or_eq.mp hin with hlt | rfl
  · rw [if_neg hlt.ne']
    exact hl hlt
  · rw [if_pos rfl, if_pos hi]
    exact ⟨a, rfl, ha rfl⟩

/-- The value at one prediction point. -/
theorem setVal_filled {combine : Build.Combine K} (hcomb : d.Combines combine p) {i : ℕ}
    (out : Pred K) (hi : i < out.vals.length) :
    d.build.setVal combine i out =
      .ok { out with vals := out.vals.set i (d.interpolant (fun c => d.values.getD c 0) p) } :=
  setVal_spec (hcomb _ _ fun _ hc => readAt_values hc) hi

/-- The gradients at one prediction point. -/
theorem setGrads_filled {combine : Build.Combine K} (hcomb : d.Combines combine p) {i : ℕ}
    (out : Pred K) (hshape : 0 < d.gradients.numRows →
      out.grads.numRows = d.gradients.numRows ∧ i < out.grads.numCols) :
    ∃ grads, d.build.setGrads combine i out = .ok { out with grads := grads } ∧
      (d.gradients.numRows = 0 → grads = out.grads) ∧
      (0 < d.gradients.numRows →
        grads.numRows = d.gradients.numRows ∧ grads.numCols = out.grads.numCols) ∧
      ∀ k < d.gradients.numRows,
        grads.entry k i = d.interpolant (fun c => d.gradients.entry k c) p ∧
          ∀ c, c ≠ i → grads.entry k c = out.grads.entry k c := by
  rcases Nat.eq_zero_or_pos d.gradients.numRows with h₀ | hpos
  · exact ⟨out.grads, setGrads_none h₀, fun _ => rfl, fun h => absurd h₀ h.ne',
      fun k hk => absurd hk (h₀ ▸ Nat.not_lt_zero k)⟩
  · obtain ⟨hr, hc⟩ := hshape hpos
    have hcol : ∀ k < d.build.grads.numRows, combine (d.build.grads.read k) =
        .ok (d.interpolant (fun c => d.gradients.entry k c) p) := fun k hk =>
      hcomb _ _ fun c hcl => read_gradients hk hcl
    obtain ⟨grads, hok, hr', hc', hset, hkeep⟩ := setGrads_spec hcol hr hc
    exact ⟨grads, hok, fun h₀ => absurd h₀ hpos.ne', fun _ => ⟨hr', hc'⟩, fun k hk =>
      ⟨hset k hk, fun c hci => hkeep k c hci⟩⟩

/-- The Hessian at one prediction point; its lower triangle is the upper one. -/
theorem setHessian_filled (uninit : ℕ → ℕ → K) {combine : Build.Combine K}
    (hcomb : d.Combines combine p) {i : ℕ} (out : Pred K) (h : d.hessians ≠ [])
    (hi : i < out.hessians.length) :
    ∃ hess, d.build.setHessian uninit combine i out =
        .ok { out with hessians := out.hessians.set i hess } ∧
      hess.numRows = d.gradients.numRows ∧
      ∀ j < d.gradients.numRows, ∀ k < d.gradients.numRows,
        hess.get j k = d.interpolant (fun c => (d.hessian c).get j k) p := by
  have hentry : ∀ k < d.build.grads.numRows, ∀ j ≤ k, combine (d.build.readHessian j k) =
      .ok (d.interpolant (fun c => (d.hessian c).get j k) p) := fun k hk j hj =>
    hcomb _ _ fun c hcl => readHessian_eq h (hj.trans_lt hk) hk hcl
  obtain ⟨hess, hok, hr, hset⟩ := setHessian_spec uninit hentry hi
  refine ⟨hess, hok, hr, fun j hj k hk => ?_⟩
  rcases le_total j k with hjk | hkj
  · exact hset k hk j hjk
  · simp only [fun c => (d.hessian c).get_comm j k]
    rw [hess.get_comm]
    exact hset j hj k hkj

/-- One pass of the loop over the prediction points. -/
theorem predictPoint_spec (uninit : ℕ → ℕ → K) {pred : List K} {before out : Pred K} {n : ℕ}
    (hn : n < pred.length) (h : d.Filled pred before n out) :
    ∃ out', d.build.predictPoint uninit pred[n] n out = .ok out' ∧
      d.Filled pred before (n + 1) out' := by
  obtain ⟨combine, hcomb, heq⟩ := predictPoint_eq (d := d) uninit pred[n] n out
  rw [heq, setVal_filled hcomb out (hn.trans_eq h.vals_length.symm), ok_bind]
  set v := d.interpolant (fun c => d.values.getD c 0) pred[n] with hv
  obtain ⟨grads, hgrads, hnone, hshape, hentry⟩ :=
    setGrads_filled hcomb { out with vals := out.vals.set n v } fun hpos =>
      ⟨(h.grads_shape hpos).1, hn.trans_eq (h.grads_shape hpos).2.symm⟩
  rw [hgrads, ok_bind]
  -- what does not depend on whether there are Hessians
  have hvals : ∀ i, (hi : i < pred.length) → i < n + 1 → (out.vals.set n v)[i]? =
      some (d.interpolant (fun c => d.values.getD c 0) pred[i]) := by
    intro i hi hin
    rw [List.getElem?_set]
    rcases Nat.lt_succ_iff_lt_or_eq.mp hin with hlt | rfl
    · rw [if_neg hlt.ne']
      exact h.vals i hi hlt
    · rw [if_pos rfl, if_pos (hi.trans_eq h.vals_length.symm)]
  have hcols : ∀ k < d.gradients.numRows, ∀ i, (hi : i < pred.length) → i < n + 1 →
      grads.entry k i = d.interpolant (fun c => d.gradients.entry k c) pred[i] := by
    intro k hk i hi hin
    rcases Nat.lt_succ_iff_lt_or_eq.mp hin with hlt | rfl
    · rw [(hentry k hk).2 i hlt.ne]
      exact h.grads k hk i hi hlt
    · exact (hentry k hk).1
  have hfilled (hessians : List (SymMatrix K))
      (hlen : d.hessians ≠ [] → hessians.length = pred.length)
      (hfill : d.hessians ≠ [] → ∀ i, (hi : i < pred.length) → i < n + 1 →
        ∃ hess, hessians[i]? = some hess ∧ hess.numRows = d.gradients.numRows ∧
          ∀ j < d.gradients.numRows, ∀ k < d.gradients.numRows,
            hess.get j k = d.interpolant (fun c => (d.hessian c).get j k) pred[i])
      (hkeep : d.hessians = [] → hessians = before.hessians) :
      d.Filled pred before (n + 1) ⟨out.vals.set n v, grads, hessians⟩ :=
    { vals_length := (List.length_set ..).trans h.vals_length
      vals := hvals
      grads_shape := fun hpos => ⟨(hshape hpos).1, (hshape hpos).2.trans (h.grads_shape hpos).2⟩
      grads := hcols
      grads_keep := fun h₀ => (hnone h₀).trans (h.grads_keep h₀)
      hessians_length := hlen
      hessians := hfill
      hessians_keep := hkeep }
  by_cases hhess : d.hessians = []
  · refine ⟨_, if_neg fun hif => interpHessians_iff.mp hif hhess, hfilled _ ?_ ?_ h.hessians_keep⟩
    · exact fun hne => absurd hhess hne
    · exact fun hne => absurd hhess hne
  · have hin : n < out.hessians.length := hn.trans_eq (h.hessians_length hhess).symm
    obtain ⟨hess, hok, hr, hset⟩ := setHessian_filled uninit hcomb
      { out with vals := out.vals.set n v, grads := grads } hhess hin
    refine ⟨_, (if_pos (interpHessians_iff.mpr hhess)).trans hok,
      hfilled _ (fun hne => (List.length_set ..).trans (h.hessians_length hne)) ?_
        fun hnil => absurd hnil hhess⟩
    intro hne i hi hin'
    refine set_getElem? (hi.trans_eq (h.hessians_length hne).symm) (fun heq => ?_)
      (fun hlt => h.hessians hne i hi hlt) hin'
    subst heq
    exact ⟨hr, hset⟩

theorem linearInterpolate1d_filled (d : FieldData K) (uninit : ℕ → ℕ → K) (pred : List K)
    (out : Pred K) :
    ∃ out', d.build.linearInterpolate1d uninit (.ofColumn pred) out = .ok out' ∧
      d.Filled pred out pred.length out' := by
  have hhess : ¬(d.build.interpHessians = true ∧ ¬d.build.interpGrads = true) := fun hand =>
    hand.2 (interpGrads_iff.mpr (d.gradients_of_hessians (interpHessians_iff.mp hand.1)))
  have hpts : ¬d.build.pts.numCols ≠ 1 := not_not.mpr rfl
  have hpred : ¬(Matrix.ofColumn pred).numCols ≠ 1 := not_not.mpr rfl
  rw [Build.linearInterpolate1d, if_neg hhess, if_neg hpts, if_neg hpred]
  refine foldlM_range_inv _ _ pred.length (d.Filled pred out) (d.filled_shape uninit pred out)
    fun n out hn hinv => ?_
  rw [Matrix.column_ofColumn, readAt_eq hn, ok_bind]
  exact predictPoint_spec uninit hn hinv

end FieldData

end FieldInterp

open FieldInterp

/-- The search finds the interval of a target inside the range, and the interpolation stores the
piecewise linear interpolant of every quantity at every prediction point. -/
theorem fieldInterpolation {K : Type} [Field K] [LinearOrder K] (d : FieldData K) :
    (∀ target, d.coords.getD 0 0 < target → target < d.coords.getD (d.coords.length - 1) 0 →
      ∃ index : ℕ, binarySearch target d.coords = .ok (index : ℤ) ∧
        ∃ h : index + 1 < d.coords.length,
          d.coords[index] ≤ target ∧ target < d.coords[index + 1]) ∧
    ∀ (uninit : ℕ → ℕ → K) (pred : List K) (out : Pred K),
      ∃ out', d.build.linearInterpolate1d uninit (.ofColumn pred) out = .ok out' ∧
        d.Filled pred out pred.length out' := by
  constructor
  · intro target hfirst hlast
    have hlt : d.coords.length - 1 < d.coords.length := Nat.sub_lt d.coords_pos one_pos
    rw [FieldData.node_eq d.coords_pos] at hfirst
    rw [FieldData.node_eq hlt] at hlast
    exact binarySearch_inside d.coords_pos d.ascending hfirst hlast
  · exact d.linearInterpolate1d_filled

/-- Two build points. -/
def twoPoints : FieldData ℚ where
  coords := [0, 2]
  values := [1, 5]
  gradients := ⟨1, 2, fun _ c => c⟩
  hessians := [⟨1, fun _ _ => 0⟩, ⟨1, fun _ _ => 4⟩]
  coords_pos := by decide
  ascending := by simp
  values_length := rfl
  gradients_numCols _ := rfl
  hessians_length _ := rfl
  hessians_numRows := by simp
  gradients_of_hessians _ := by decide

theorem fieldInterpolation_twoPoints :
    (∃ index : ℕ, binarySearch 1 twoPoints.coords = .ok (index : ℤ) ∧
      ∃ h : index + 1 < twoPoints.coords.length,
        twoPoints.coords[index] ≤ 1 ∧ 1 < twoPoints.coords[index + 1]) ∧
    ∃ out', twoPoints.build.linearInterpolate1d (fun _ _ => 0) (.ofColumn [-1, 1, 3])
        ⟨[], ⟨0, 0, fun _ _ => 0⟩, []⟩ = .ok out' ∧
      twoPoints.Filled [-1, 1, 3] ⟨[], ⟨0, 0, fun _ _ => 0⟩, []⟩ 3 out' :=
  ⟨(fieldInterpolation twoPoints).1 1 (by simp [twoPoints]) (by simp [twoPoints]),
    (fieldInterpolation twoPoints).2 _ _ _⟩

end Dakota
