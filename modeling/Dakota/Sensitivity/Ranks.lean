import Dakota.Lib.MultiMap
import Dakota.Lib.Scatter

/-!
# Values to ranks

`values_to_ranks` of `SensAnalysisGlobal` (`src/src/SensAnalysisGlobal.cpp`), which overwrites each
row of a data matrix by the ranks of its entries. The model keeps, next to the matrix, the indices
written so far. The number of ties and the rank counter are mathematical integers.

* `rankOf`: the rank of a value among those of a row, by counts of the smaller and equal ones;
  `rankOf_eq_averagePosition`: it is the average of the positions of the value in the sorted row.
* `rankOf_lt_iff`, `rankOf_map`, `sum_rankOf`: ranks compare as the values do, only depend on
  comparisons, and add up to the same for each row.
* `rankLoop_eq`: the loop over the ranges of tied values writes its rank to the index of each entry
  of the multimap; `valuesToRanks_eq` is the matrix after all rows.
-/

namespace Dakota

variable {K : Type} [Field K] [LinearOrder K]

/-- `avg_rank` of a range of `numTies` tied values. -/
def avgRank (rank numTies : ℕ) : K := ((rank + rank + numTies - 1 : ℤ) : K) / 2

/-- `valid_data` with the indices written so far. -/
structure RankState (K : Type) where
  data : ℕ → ℕ → K
  written : List (ℕ × ℕ)

namespace RankState

def write (s : RankState K) (i j : ℕ) (x : K) : RankState K :=
  { data := Function.update s.data i (Function.update (s.data i) j x)
    written := s.written ++ [(i, j)] }

end RankState

/-- `vals_inds` of row `i`: from values to column indices. -/
def valsInds (data : ℕ → ℕ → K) (i numValidSamples : ℕ) : MultiMap K ℕ :=
  MultiMap.ofList ((List.range numValidSamples).map fun j => (data i j, j))

/-- The loop over the unique values, from the iterator `viIt` on. -/
def rankLoop (i : ℕ) (valsInds : MultiMap K ℕ) : ℕ → ℕ → ℕ → RankState K → Option (RankState K)
  | 0, _, _, _ => none
  | fuel + 1, viIt, rank, s =>
    match valsInds[viIt]? with
    | none => some s
    | some (value, _) =>
      let first := valsInds.lowerBound value
      let last := valsInds.upperBound value
      let numTies := last - first
      rankLoop i valsInds fuel last (rank + numTies)
        (((valsInds.drop first).take numTies).foldl
          (fun s vi => s.write i vi.2 (avgRank rank numTies)) s)

/-- `values_to_ranks`, with at most `fuel` steps for a row. -/
def valuesToRanks (fuel numCorr numValidSamples : ℕ) (s : RankState K) : Option (RankState K) :=
  (List.range numCorr).foldlM
    (fun s i => rankLoop i (valsInds s.data i numValidSamples) fuel 0 0 s) s

/-! ## Ranks -/

/-- The rank of a value, by the counts of smaller and of equal ones. -/
def rankOf (l : List K) (v : K) : K := avgRank (l.countP (· < v)) (l.countP (· = v))

/-- The average of the zero-based positions of a value. -/
def averagePosition (l : List K) (v : K) : K :=
  ((l.findIdxs (· = v)).map (Nat.cast : ℕ → K)).sum / (l.findIdxs (· = v)).length

section

variable {l l' : List K} {v w : K} {f : K → K}

omit [Field K] in
/-- In a sorted list the positions of a value are those after the smaller values. -/
theorem findIdxs_sorted (h : l.Pairwise (· ≤ ·)) (start : ℕ) :
    l.findIdxs (· = v) start = List.range' (start + l.countP (· < v)) (l.countP (· = v)) := by
  induction l generalizing start with
  | nil => rfl
  | cons x l ih =>
    obtain ⟨hx, hl⟩ := List.pairwise_cons.mp h
    rw [List.findIdxs_cons, List.countP_cons, List.countP_cons, ih hl]
    rcases lt_trichotomy x v with hv | hv | hv
    · simp [hv, hv.ne, Nat.add_assoc, Nat.add_comm 1]
    · have hless : l.countP (· < v) = 0 := by
        refine List.countP_eq_zero.mpr fun y hy => ?_
        simpa [← hv] using hx y hy
      simp [hv, hless, List.range'_succ]
    · have hless : l.countP (· < v) = 0 := by
        refine List.countP_eq_zero.mpr fun y hy => ?_
        simpa using hv.le.trans (hx y hy)
      have heq : l.countP (· = v) = 0 := by
        refine List.countP_eq_zero.mpr fun y hy => ?_
        simpa using (hv.trans_le (hx y hy)).ne'
      simp [hv.ne', hv.not_gt, hless, heq]

theorem rankOf_perm (h : l.Perm l') : rankOf l v = rankOf l' v := by
  unfold rankOf
  rw [h.countP_eq, h.countP_eq]

variable [IsStrictOrderedRing K]

omit [LinearOrder K] [IsStrictOrderedRing K] in
theorem sum_range' [CharZero K] (start k : ℕ) :
    ((List.range' start k).map (Nat.cast : ℕ → K)).sum = k * avgRank start k := by
  induction k generalizing start with
  | zero => simp
  | succ k ih =>
    rw [List.range'_succ, List.map_cons, List.sum_cons, ih]
    unfold avgRank
    push_cast
    ring

/-- The rank of a value is the average of its positions in the sorted list. -/
theorem rankOf_eq_averagePosition (hv : v ∈ l) :
    rankOf l v = averagePosition (l.insertionSort (· ≤ ·)) v := by
  have hpos : (l.insertionSort (· ≤ ·)).countP (· = v) ≠ 0 := by
    refine (List.countP_pos_iff.mpr ⟨v, ?_, by simp⟩).ne'
    exact (List.mem_insertionSort _).mpr hv
  unfold averagePosition
  rw [← rankOf_perm (List.perm_insertionSort (· ≤ ·) l),
    findIdxs_sorted (List.pairwise_insertionSort (· ≤ ·) l) 0, List.length_range', sum_range',
    Nat.zero_add, mul_div_cancel_left₀ _ (Nat.cast_ne_zero.mpr hpos)]
  rfl

omit [Field K] [IsStrictOrderedRing K] in
/-- Smaller and equal values of `v` are smaller than `w`. -/
theorem countP_add_le (h : v < w) :
    l.countP (· < v) + l.countP (· = v) ≤ l.countP (· < w) := by
  induction l with
  | nil => rfl
  | cons x l ih =>
    simp only [List.countP_cons]
    have : (if x < v then 1 else 0) + (if x = v then 1 else 0) ≤ if x < w then 1 else 0 := by
      rcases lt_trichotomy x v with hx | hx | hx
      · simp [hx, hx.ne, hx.trans h]
      · simp [hx, h]
      · simp [hx.not_gt, hx.ne']
    simp only [decide_eq_true_eq]
    omega

theorem strictMonoOn_rankOf (l : List K) : StrictMonoOn (rankOf l) {v | v ∈ l} := by
  intro v hv w hw h
  have hpos : 0 < l.countP (· = w) := List.countP_pos_iff.mpr ⟨w, hw, by simp⟩
  have hpos' : 0 < l.countP (· = v) := List.countP_pos_iff.mpr ⟨v, hv, by simp⟩
  have hle : l.countP (· < v) + l.countP (· = v) ≤ l.countP (· < w) := countP_add_le h
  unfold rankOf avgRank
  refine div_lt_div_of_pos_right ?_ two_pos
  exact_mod_cast (show ((l.countP (· < v) : ℤ) + l.countP (· < v) + l.countP (· = v) - 1) <
    l.countP (· < w) + l.countP (· < w) + l.countP (· = w) - 1 by omega)

theorem rankOf_lt_iff (hv : v ∈ l) (hw : w ∈ l) : rankOf l v < rankOf l w ↔ v < w :=
  (strictMonoOn_rankOf l).lt_iff_lt hv hw

omit [IsStrictOrderedRing K] in
/-- Ranks only depend on how the values compare. -/
theorem rankOf_map (hf : StrictMonoOn f {x | x ∈ l}) (hv : v ∈ l) :
    rankOf (l.map f) (f v) = rankOf l v := by
  unfold rankOf
  rw [List.countP_map, List.countP_map]
  congr 1
  · refine List.countP_congr fun x hx => ?_
    simpa using hf.lt_iff_lt hx hv
  · refine List.countP_congr fun x hx => ?_
    simpa using hf.injOn.eq_iff hx hv

omit [Field K] [LinearOrder K] [IsStrictOrderedRing K] in
theorem countP_range {n : ℕ} {g : ℕ → K} {P : K → Prop} [DecidablePred P] :
    ((List.range n).map g).countP P = ∑ k ∈ Finset.range n, if P (g k) then 1 else 0 := by
  induction n with
  | zero => rfl
  | succ n ih =>
    rw [List.range_succ, List.map_append, List.countP_append, ih, Finset.sum_range_succ]
    simp [List.countP_singleton]

omit [Field K] [IsStrictOrderedRing K] in
/-- Of two columns one is smaller, or they are equal: twice the smaller pairs and the equal ones
are all pairs. -/
theorem sum_countP {n : ℕ} {g : ℕ → K} :
    ∑ j ∈ Finset.range n, (2 * ((List.range n).map g).countP (· < g j) +
      ((List.range n).map g).countP (· = g j)) = n * n := by
  have hswap : ∑ j ∈ Finset.range n, ((List.range n).map g).countP (· < g j) =
      ∑ j ∈ Finset.range n, ((List.range n).map g).countP (g j < ·) := by
    simp only [countP_range]
    exact Finset.sum_comm
  have hall (j : ℕ) : ((List.range n).map g).countP (· < g j) +
      ((List.range n).map g).countP (g j < ·) + ((List.range n).map g).countP (· = g j) = n := by
    simp only [countP_range, ← Finset.sum_add_distrib]
    calc ∑ k ∈ Finset.range n, ((if g k < g j then 1 else 0) + (if g j < g k then 1 else 0) +
          if g k = g j then 1 else 0)
        = ∑ _ ∈ Finset.range n, 1 := Finset.sum_congr rfl fun k _ => by
          rcases lt_trichotomy (g k) (g j) with h | h | h
          · simp [h, h.not_gt, h.ne]
          · simp [h]
          · simp [h, h.not_gt, h.ne']
      _ = n := by simp
  calc _ = ∑ j ∈ Finset.range n, ((List.range n).map g).countP (· < g j) +
        (∑ j ∈ Finset.range n, ((List.range n).map g).countP (g j < ·) +
          ∑ j ∈ Finset.range n, ((List.range n).map g).countP (· = g j)) := by
        rw [← hswap, Finset.sum_add_distrib, ← Finset.mul_sum]
        ring
    _ = ∑ j ∈ Finset.range n, n := by
        rw [← Finset.sum_add_distrib, ← Finset.sum_add_distrib]
        exact Finset.sum_congr rfl fun j _ => (Nat.add_assoc _ _ _).symm.trans (hall j)
    _ = n * n := by simp

theorem sum_rankOf {n : ℕ} {g : ℕ → K} :
    ∑ j ∈ Finset.range n, rankOf ((List.range n).map g) (g j) = (n : K) * (n - 1) / 2 := by
  have hcount : ∑ j ∈ Finset.range n, (2 * (((List.range n).map g).countP (· < g j) : K) +
      ((List.range n).map g).countP (· = g j)) = n * n := by
    exact_mod_cast congrArg (Nat.cast : ℕ → K) (sum_countP (n := n) (g := g))
  have hrank (j : ℕ) : rankOf ((List.range n).map g) (g j) =
      (2 * (((List.range n).map g).countP (· < g j) : K) +
        ((List.range n).map g).countP (· = g j) - 1) / 2 := by
    unfold rankOf avgRank
    push_cast
    ring
  simp only [hrank]
  rw [← Finset.sum_div, Finset.sum_sub_distrib, hcount, Finset.sum_const, Finset.card_range,
    nsmul_one]
  ring

end

/-! ## The loop -/

namespace RankState

/-- Values written to entries of a row, as a list of columns with values. -/
def writeRow (s : RankState K) (i : ℕ) (writes : List (ℕ × K)) : RankState K :=
  writes.foldl (fun s w => s.write i w.1 w.2) s

variable {s : RankState K} {i j : ℕ} {writes writes' : List (ℕ × K)}

omit [Field K] [LinearOrder K] in
theorem writeRow_append :
    s.writeRow i (writes ++ writes') = (s.writeRow i writes).writeRow i writes' :=
  List.foldl_append

omit [Field K] [LinearOrder K] in
theorem written_writeRow :
    (s.writeRow i writes).written = s.written ++ writes.map fun w => (i, w.1) := by
  induction writes generalizing s with
  | nil => exact (List.append_nil _).symm
  | cons w writes ih =>
    rw [writeRow, List.foldl_cons]
    refine ih.trans ?_
    rw [write, List.append_assoc]
    rfl

omit [Field K] [LinearOrder K] in
theorem data_writeRow :
    (s.writeRow i writes).data = Function.update s.data i (scatter (s.data i) writes) := by
  induction writes generalizing s with
  | nil => exact (Function.update_eq_self _ _).symm
  | cons w writes ih =>
    rw [writeRow, List.foldl_cons]
    refine ih.trans ?_
    simp only [write, Function.update_idem, Function.update_self, scatter_cons]

end RankState

section

variable {m : MultiMap K ℕ} {it rank fuel i n : ℕ} {s : RankState K} {key v : K}

/-- The values before the iterator are smaller than those from it on. -/
def CutAt (m : MultiMap K ℕ) (it : ℕ) : Prop := ∀ p ∈ m.take it, ∀ q ∈ m.drop it, p.1 < q.1

/-- The writes for the entries of the multimap from the iterator on. -/
def rankWrites (m : MultiMap K ℕ) (it : ℕ) : List (ℕ × K) :=
  (m.drop it).map fun vi => (vi.2, rankOf (m.map (·.1)) vi.1)

omit [Field K] in
/-- At a cut, the range of the next value starts at the iterator. -/
theorem lowerBound_of_cut (hm : m.Sorted) (hcut : CutAt m it) {p : K × ℕ} (hp : m[it]? = some p) :
    m.lowerBound p.1 = it := by
  obtain ⟨hit, rfl⟩ := List.getElem?_eq_some_iff.mp hp
  have hdrop : m.drop it = m[it] :: m.drop (it + 1) := List.drop_eq_getElem_cons hit
  have htake : (m.take it).countP (·.1 < m[it].1) = it := by
    rw [List.countP_eq_length.mpr fun q hq => by
      simpa using hcut q hq m[it] (hdrop ▸ List.mem_cons_self), List.length_take]
    omega
  have hrest : (m.drop it).countP (·.1 < m[it].1) = 0 := by
    refine List.countP_eq_zero.mpr fun q hq => ?_
    have hsorted : (m.drop it).Pairwise fun p q => p.1 ≤ q.1 := hm.drop
    rw [hdrop] at hsorted hq
    rcases List.mem_cons.mp hq with rfl | hq
    · simp
    · simpa using (List.pairwise_cons.mp hsorted).1 q hq
  have hall := congrArg (List.countP (·.1 < m[it].1)) (List.take_append_drop it m)
  rw [List.countP_append, htake, hrest, Nat.add_zero] at hall
  rw [MultiMap.lowerBound_eq_countP hm, ← hall]

omit [Field K] in
/-- The end of the range of a value is a cut. -/
theorem cut_upperBound (hm : m.Sorted) : CutAt m (m.upperBound key) := by
  intro p hp q hq
  have hle : p.1 ≤ key := by
    obtain ⟨k, hk, rfl⟩ := List.mem_take_iff_getElem.mp hp
    have := List.not_of_lt_findIdx (Nat.lt_of_lt_of_le hk (min_le_left _ _))
    simpa using this
  obtain ⟨k, hk, rfl⟩ := List.mem_drop_iff_getElem.mp hq
  have hend : m.upperBound key < m.length := by omega
  have hlt : key < m[m.upperBound key].1 :=
    of_decide_eq_true (@List.findIdx_getElem _ (fun p : K × ℕ => decide (key < p.1)) m hend)
  rcases Nat.eq_zero_or_pos k with rfl | hpos
  · exact hle.trans_lt hlt
  · exact hle.trans_lt (hlt.trans_le (List.pairwise_iff_getElem.mp hm _ _ _ _ (by omega)))

/-- From a cut on, with the rank at the number of entries passed, the loop writes its rank to each
entry that is left. -/
theorem rankLoop_eq (hm : m.Sorted) (hcut : CutAt m it) (hfuel : m.length < fuel + it)
    (hit : it ≤ m.length) : rankLoop i m fuel it it s = some (s.writeRow i (rankWrites m it)) := by
  induction fuel generalizing it s with
  | zero => omega
  | succ fuel ih =>
    unfold rankLoop
    cases hp : m[it]? with
    | none =>
      have hall : m.drop it = [] := List.drop_eq_nil_of_le (List.getElem?_eq_none_iff.mp hp)
      simp [rankWrites, hall, RankState.writeRow]
    | some p =>
      have hfirst : m.lowerBound p.1 = it := lowerBound_of_cut hm hcut hp
      have hless : m.countP (·.1 < p.1) = it := by rw [← MultiMap.lowerBound_eq_countP hm, hfirst]
      have hpos : 0 < m.countP (·.1 = p.1) :=
        List.countP_pos_iff.mpr ⟨p, List.mem_of_getElem? hp, by simp⟩
      have hlast : m.upperBound p.1 = it + m.countP (·.1 = p.1) := by
        rw [MultiMap.upperBound_eq_countP hm, MultiMap.countP_le_eq_add, hless]
      have hle : m.upperBound p.1 ≤ m.length := List.findIdx_le_length
      have hties : (m.drop it).take (m.upperBound p.1 - it) = m.filter (·.1 = p.1) := by
        rw [← MultiMap.slice_equalRange hm, hfirst]
      have hrank : rankOf (m.map (·.1)) p.1 =
          (avgRank it (m.upperBound p.1 - it) : K) := by
        rw [rankOf, List.countP_map, List.countP_map, hlast, Nat.add_sub_cancel_left, ← hless]
        rfl
      have hwrites : rankWrites m it =
          ((m.drop it).take (m.upperBound p.1 - it)).map
            (fun vi => (vi.2, (avgRank it (m.upperBound p.1 - it) : K))) ++
          rankWrites m (m.upperBound p.1) := by
        have hsplit := List.take_append_drop (m.upperBound p.1 - it) (m.drop it)
        rw [List.drop_drop, Nat.add_sub_cancel' (by omega)] at hsplit
        rw [rankWrites, ← hsplit, List.map_append, hsplit, rankWrites]
        congr 1
        rw [hties]
        refine List.map_congr_left fun vi hvi => ?_
        have hval : vi.1 = p.1 := by simpa using (List.mem_filter.mp hvi).2
        rw [hval, hrank]
      simp only [hfirst]
      rw [show it + (m.upperBound p.1 - it) = m.upperBound p.1 by omega,
        ih (cut_upperBound hm) (by omega) hle, hwrites, RankState.writeRow_append]
      congr 2
      rw [RankState.writeRow, List.foldl_map]

end

/-! ## The matrix -/

section

variable {data : ℕ → ℕ → K} {i j n numCorr fuel : ℕ} {s : RankState K}

/-- Row `i`, over the valid samples. -/
def dataRow (data : ℕ → ℕ → K) (n i : ℕ) : List K := (List.range n).map (data i)

omit [Field K] [LinearOrder K] in
theorem mem_dataRow (hj : j < n) : data i j ∈ dataRow data n i :=
  List.mem_map_of_mem (List.mem_range.mpr hj)

omit [Field K] in
theorem perm_keys_valsInds : ((valsInds data i n).map (·.1)).Perm (dataRow data n i) := by
  have h := (MultiMap.perm_ofList ((List.range n).map fun j => (data i j, j))).map (·.1)
  rwa [List.map_map] at h

variable (data i n) in
omit [Field K] in
theorem perm_indices_valsInds : ((valsInds data i n).map (·.2)).Perm (List.range n) := by
  have h := (MultiMap.perm_ofList ((List.range n).map fun j => (data i j, j))).map (·.2)
  rw [List.map_map] at h
  exact h.trans (List.Perm.of_eq (List.map_id _))

omit [Field K] in
theorem mem_valsInds {p : K × ℕ} : p ∈ valsInds data i n ↔ p.2 < n ∧ p.1 = data i p.2 := by
  rw [valsInds, (MultiMap.perm_ofList _).mem_iff, List.mem_map]
  constructor
  · rintro ⟨j, hj, rfl⟩
    exact ⟨List.mem_range.mp hj, rfl⟩
  · rintro ⟨hj, hval⟩
    exact ⟨p.2, List.mem_range.mpr hj, Prod.ext hval.symm rfl⟩

/-- The matrix of ranks. -/
def ranksOf (data : ℕ → ℕ → K) (numCorr n i j : ℕ) : K :=
  if i < numCorr ∧ j < n then rankOf (dataRow data n i) (data i j) else data i j

theorem scatter_rankWrites :
    scatter (data i) (rankWrites (valsInds data i n) 0) j =
      if j < n then rankOf (dataRow data n i) (data i j) else data i j := by
  have hmem (x : K) : (j, x) ∈ rankWrites (valsInds data i n) 0 ↔
      j < n ∧ x = rankOf (dataRow data n i) (data i j) := by
    rw [rankWrites, List.drop_zero, List.mem_map]
    simp only [rankOf_perm perm_keys_valsInds, Prod.mk.injEq]
    constructor
    · rintro ⟨p, hp, rfl, rfl⟩
      obtain ⟨hj, hval⟩ := mem_valsInds.mp hp
      exact ⟨hj, by rw [hval]⟩
    · rintro ⟨hj, rfl⟩
      exact ⟨(data i j, j), mem_valsInds.mpr ⟨hj, rfl⟩, rfl, rfl⟩
  split_ifs with hj
  · exact scatter_of_mem ((hmem _).mpr ⟨hj, rfl⟩) fun y hy => ((hmem y).mp hy).2
  · refine scatter_of_notMem fun hslot => hj ?_
    obtain ⟨⟨j', x⟩, hx, rfl⟩ := List.mem_map.mp hslot
    exact ((hmem x).mp hx).1

theorem valuesToRanks_succ :
    valuesToRanks fuel (numCorr + 1) n s = (valuesToRanks fuel numCorr n s).bind fun s =>
      rankLoop numCorr (valsInds s.data numCorr n) fuel 0 0 s := by
  unfold valuesToRanks
  rw [List.range_succ, List.foldlM_append]
  exact congrArg _ (funext fun s => List.foldlM_cons.trans (bind_pure _))

variable (numCorr s) in
/-- The rows are overwritten one after the other. -/
theorem valuesToRanks_eq (hfuel : n < fuel) :
    ∃ s', valuesToRanks fuel numCorr n s = some s' ∧ s'.data = ranksOf s.data numCorr n ∧
      s'.written = s.written ++ (List.range numCorr).flatMap fun i =>
        (valsInds s.data i n).map fun vi => (i, vi.2) := by
  induction numCorr with
  | zero => exact ⟨s, rfl, by funext i j; simp [ranksOf], by simp⟩
  | succ numCorr ih =>
    obtain ⟨s', hrun, hdata, hwritten⟩ := ih
    have hlen : (valsInds s'.data numCorr n).length = n := by
      rw [valsInds, (MultiMap.perm_ofList _).length_eq, List.length_map, List.length_range]
    have hrow : s'.data numCorr = s.data numCorr := by
      funext j
      rw [hdata, ranksOf, if_neg (by omega)]
    have hsame : valsInds s'.data numCorr n = valsInds s.data numCorr n := by
      unfold valsInds
      rw [hrow]
    refine ⟨s'.writeRow numCorr (rankWrites (valsInds s'.data numCorr n) 0), ?_, ?_, ?_⟩
    · rw [valuesToRanks_succ, hrun, Option.bind_some]
      exact rankLoop_eq (MultiMap.sorted_ofList _) (fun _ h => by simp at h) (by omega)
        (Nat.zero_le _)
    · rw [RankState.data_writeRow]
      funext i j
      rcases eq_or_ne i numCorr with rfl | hi
      · rw [Function.update_self, scatter_rankWrites, ranksOf, dataRow, dataRow, hrow]
        by_cases hj : j < n <;> simp [hj]
      · have hlt : i < numCorr + 1 ↔ i < numCorr := by omega
        simp only [Function.update_of_ne hi, hdata, ranksOf, hlt]
    · rw [RankState.written_writeRow, hwritten, hsame, List.range_succ, List.flatMap_append,
        List.append_assoc, rankWrites, List.drop_zero, List.map_map]
      simp [Function.comp_def]

theorem dataRow_ranksOf (hi : i < numCorr) :
    dataRow (ranksOf data numCorr n) n i =
      (dataRow data n i).map (rankOf (dataRow data n i)) := by
  rw [dataRow, dataRow, List.map_map]
  refine List.map_congr_left fun j hj => ?_
  rw [ranksOf, if_pos ⟨hi, List.mem_range.mp hj⟩]
  rfl

omit [Field K] [LinearOrder K] in
theorem dataRow_map {f : ℕ → K → K} (hi : i < numCorr) :
    dataRow (fun i j => if i < numCorr ∧ j < n then f i (data i j) else data i j) n i =
      (dataRow data n i).map (f i) := by
  rw [dataRow, dataRow, List.map_map]
  refine List.map_congr_left fun j hj => ?_
  rw [if_pos ⟨hi, List.mem_range.mp hj⟩]
  rfl

/-- Ranks of a matrix with strictly increasing functions applied to its rows. -/
theorem ranksOf_map {f : ℕ → K → K}
    (hf : ∀ i < numCorr, StrictMonoOn (f i) {x | x ∈ dataRow data n i}) :
    ranksOf (fun i j => if i < numCorr ∧ j < n then f i (data i j) else data i j) numCorr n =
      ranksOf data numCorr n := by
  funext i j
  by_cases h : i < numCorr ∧ j < n
  · simp only [ranksOf, if_pos h]
    rw [dataRow_map h.1, rankOf_map (hf i h.1) (mem_dataRow h.2)]
  · simp only [ranksOf, if_neg h]

theorem ranksOf_ranksOf [IsStrictOrderedRing K] :
    ranksOf (ranksOf data numCorr n) numCorr n = ranksOf data numCorr n :=
  ranksOf_map fun i _ => strictMonoOn_rankOf (dataRow data n i)

omit [Field K] in
/-- The columns of the rows' multimaps are all columns, in some order. -/
theorem perm_written :
    ((List.range numCorr).flatMap fun i => (valsInds data i n).map fun vi => (i, vi.2)).Perm
      ((List.range numCorr).product (List.range n)) := by
  refine List.Perm.flatMap_left _ fun i _ => ?_
  have h := (perm_indices_valsInds data i n).map (Prod.mk i)
  rwa [List.map_map] at h

omit [Field K] in
theorem count_written :
    ((List.range numCorr).flatMap fun i => (valsInds data i n).map fun vi => (i, vi.2)).count
      (i, j) = if i < numCorr ∧ j < n then 1 else 0 := by
  rw [perm_written.count_eq]
  split_ifs with h
  · refine List.count_eq_one_of_mem (List.nodup_range.product List.nodup_range) ?_
    exact List.pair_mem_product.mpr ⟨List.mem_range.mpr h.1, List.mem_range.mpr h.2⟩
  · refine List.count_eq_zero.mpr fun hmem => h ?_
    obtain ⟨hi, hj⟩ := List.pair_mem_product.mp hmem
    exact ⟨List.mem_range.mp hi, List.mem_range.mp hj⟩

/-- `values_to_ranks` returns. Each entry has been written once and is the average position of its
value in the sorted row; entries compare as before, the rows add up to `n(n-1)/2`, and neither a
second application nor strictly increasing functions applied before change the result. -/
theorem valuesToRanks_correct [IsStrictOrderedRing K] (data : ℕ → ℕ → K)
    (numCorr n fuel : ℕ) (hfuel : n < fuel) :
    ∃ s, valuesToRanks fuel numCorr n ⟨data, []⟩ = some s ∧
      (∀ i < numCorr, ∀ j < n, s.data i j =
        averagePosition ((dataRow data n i).insertionSort (· ≤ ·)) (data i j)) ∧
      (∀ i < numCorr, ∀ j < n, ∀ k < n, (s.data i j < s.data i k ↔ data i j < data i k) ∧
        (s.data i j = s.data i k ↔ data i j = data i k)) ∧
      (∀ i < numCorr, ∑ j ∈ Finset.range n, s.data i j = (n : K) * (n - 1) / 2) ∧
      (∀ i j, s.written.count (i, j) = if i < numCorr ∧ j < n then 1 else 0) ∧
      (∀ i j, ¬ (i < numCorr ∧ j < n) → s.data i j = data i j) ∧
      (∃ twice, valuesToRanks fuel numCorr n s = some twice ∧ twice.data = s.data) ∧
      ∀ f : ℕ → K → K, (∀ i < numCorr, StrictMonoOn (f i) {x | x ∈ dataRow data n i}) →
        ∃ mapped, valuesToRanks fuel numCorr n
          ⟨fun i j => if i < numCorr ∧ j < n then f i (data i j) else data i j, []⟩ = some mapped ∧
          ∀ i < numCorr, ∀ j < n, mapped.data i j = s.data i j := by
  obtain ⟨s, hrun, hdata, hwritten⟩ := valuesToRanks_eq numCorr ⟨data, []⟩ hfuel
  have hrank (i j : ℕ) (hi : i < numCorr) (hj : j < n) :
      s.data i j = rankOf (dataRow data n i) (data i j) := by
    rw [hdata, ranksOf, if_pos ⟨hi, hj⟩]
  refine ⟨s, hrun, ?_, ?_, ?_, ?_, ?_, ?_, ?_⟩
  · intro i hi j hj
    rw [hrank i j hi hj, rankOf_eq_averagePosition (mem_dataRow hj)]
  · intro i hi j hj k hk
    rw [hrank i j hi hj, hrank i k hi hk]
    exact ⟨rankOf_lt_iff (mem_dataRow hj) (mem_dataRow hk),
      (strictMonoOn_rankOf _).injOn.eq_iff (mem_dataRow hj) (mem_dataRow hk)⟩
  · intro i hi
    rw [← sum_rankOf (g := data i)]
    exact Finset.sum_congr rfl fun j hj => hrank i j hi (Finset.mem_range.mp hj)
  · intro i j
    rw [hwritten]
    exact count_written
  · intro i j h
    rw [hdata, ranksOf, if_neg h]
  · obtain ⟨twice, htwice, hsame, -⟩ := valuesToRanks_eq numCorr s hfuel
    exact ⟨twice, htwice, by rw [hsame, hdata, ranksOf_ranksOf]⟩
  · intro f hf
    obtain ⟨mapped, hmapped, hsame, -⟩ := valuesToRanks_eq numCorr
      ⟨fun i j => if i < numCorr ∧ j < n then f i (data i j) else data i j, []⟩ hfuel
    refine ⟨mapped, hmapped, fun i hi j hj => ?_⟩
    rw [hsame, hdata, ranksOf_map hf]

/-- A row with two tied values. -/
def tiedRow : ℕ → ℕ → ℚ := fun _ j => if j = 1 then 1 else 2

theorem valuesToRanks_tiedRow :
    ∃ s, valuesToRanks 4 1 3 ⟨tiedRow, []⟩ = some s ∧ s.data 0 0 = 3 / 2 ∧
      s.written.count (0, 2) = 1 := by
  obtain ⟨s, hrun, hrank, -, -, hcount, -⟩ := valuesToRanks_correct tiedRow 1 3 4 (by decide)
  refine ⟨s, hrun, (hrank 0 (by decide) 0 (by decide)).trans ?_, hcount 0 2⟩
  decide +kernel

example : (valuesToRanks 4 1 3 ⟨tiedRow, []⟩).map (fun s => (List.range 3).map (s.data 0)) =
    some [3 / 2, 0, 3 / 2] := by decide +kernel

end

end Dakota
