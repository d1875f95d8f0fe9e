import Dakota.Lib.CenteredOffsets
import Dakota.ParamStudy.Validation

/-!
# The layout of a centered study

Which point `centeredLoop` writes to which slot, and what `indexToVarStep` makes of the slot.

* `StudyVar`: a variable of any type, and what it is some steps from its initial value (`At`).
  `centeredLoop_map`: the loops over the types of variables are one loop over all variables.
* `flatLoop_eq_ok`: that loop writes the pairs of `offsetPairs` in their order.
* `findVarStep_eq_ok`: the decoder finds the pair at a position.
* `centeredConsistent_iff`: when the two agree with each other and with the number of evaluations.
-/

namespace Dakota

open CInt Outcome CenteredOffsets

/-! ## Variables of any type -/

inductive StudyVar (K : Type)
  | continuous (var : RangeVar K)
  | discreteInt (var : DiscreteIntVar)
  | discreteString (var : SetVar String)
  | discreteReal (var : SetVar K)

inductive StudyValue (K : Type)
  | real (x : K)
  | int (n : ℤ)
  | string (s : String)

variable {K : Type}

def ParamStudy.vars (study : ParamStudy K) : List (StudyVar K) :=
  study.cv.map .continuous ++ (study.div.map .discreteInt ++
    (study.dsv.map .discreteString ++ study.drv.map .discreteReal))

def StudyPoint.values (point : StudyPoint K) : List (StudyValue K) :=
  point.cv.map .real ++ (point.div.map .int ++ (point.dsv.map .string ++ point.drv.map .real))

/-- The element of a set `k` steps from the initial one. -/
def SetVar.At {α : Type} [DecidableEq α] (var : SetVar α) (k : ℤ) (x : α) : Prop :=
  ∃ i j : ℕ, var.values.idxOf? var.initial = some i ∧ (j : ℤ) = i + var.step * k ∧
    var.values[j]? = some x

namespace StudyVar

variable [Ring K] [DecidableEq K]

/-- The value `k` steps from the initial one. -/
def At (k : ℤ) (value : StudyValue K) : StudyVar K → Prop
  | continuous var => value = .real (var.initial + k * var.step)
  | discreteInt (.range var) => value = .int (var.initial + k * var.step)
  | discreteInt (.set var) => ∃ x, var.At k x ∧ value = .int x
  | discreteString var => ∃ x, var.At k x ∧ value = .string x
  | discreteReal var => ∃ x, var.At k x ∧ value = .real x

/-- There is such a value: it fits in an `int`, or its index is in the set. -/
def StepExists (k : ℤ) : StudyVar K → Prop
  | continuous _ => True
  | discreteInt (.range var) => IsInt (k * var.step) ∧ IsInt (var.initial + k * var.step)
  | discreteInt (.set var) => var.dim.Exists k
  | discreteString var => var.dim.Exists k
  | discreteReal var => var.dim.Exists k

def stepValue (k : ℤ) : StudyVar K → Except StudyError (StudyValue K)
  | continuous var => pure (.real (cStep var k))
  | discreteInt var => .int <$> diStep var k
  | discreteString var => .string <$> dssStep var k
  | discreteReal var => .real <$> dsrStep var k

end StudyVar

section

variable {α : Type} [DecidableEq α] {var : SetVar α} {k : ℤ} {x y : α}

theorem SetVar.At.unique (hx : var.At k x) (hy : var.At k y) : x = y := by
  obtain ⟨i, j, hi, hj, hx⟩ := hx
  obtain ⟨i', j', hi', hj', hy⟩ := hy
  cases hi.symm.trans hi'
  cases Int.ofNat_inj.mp (hj.trans hj'.symm)
  exact Option.some.inj (hx.symm.trans hy)

theorem SetVar.At.exists (h : var.At k x) : var.dim.Exists k := by
  obtain ⟨i, j, hi, hj, hx⟩ := h
  obtain ⟨hlt, -⟩ := List.getElem?_eq_some_iff.mp hx
  have hj' : (i : ℤ) + var.dim.step * k = j := hj.symm
  refine ⟨i, hi, ?_, ?_⟩ <;> rw [hj']
  · exact Int.natCast_nonneg j
  · exact_mod_cast hlt

theorem SetVar.at_of_setStep (h : setStep var k = .ok x) : var.At k x := by
  unfold setStep at h
  simp only at h
  split_ifs at h with hnpos
  obtain ⟨product, hproduct, h⟩ := bind_eq_ok.mp h
  obtain ⟨hint, rfl⟩ := checkedInt_eq_ok.mp hproduct
  split_ifs at h with hmem
  obtain ⟨i, hi⟩ : ∃ i, var.values.idxOf? var.initial = some i := by
    unfold setValueToIndex at hnpos
    cases hidx : var.values.idxOf? var.initial with
    | some i => exact ⟨i, rfl⟩
    | none =>
      rw [hidx] at hnpos
      exact absurd rfl hnpos
  have hindex : setValueToIndex var.initial var.values = i := by
    unfold setValueToIndex
    rw [hi]
  have hilt : i < var.values.length := (List.idxOf?_eq_some_iff.mp hi).choose
  have hsize := var.size_int
  have hmem' := (narrow_mem_iff (by omega) (by omega) hint (by exact_mod_cast hsize)).mp
    (hindex ▸ hmem)
  have hnarrow : narrow (i + k * var.step) = i + k * var.step :=
    narrow_of_isInt ⟨by omega, by omega⟩
  refine ⟨i, (i + k * var.step).toNat, hi, by rw [mul_comm var.step]; omega, ?_⟩
  cases h
  rw [List.getElem?_eq_getElem (by omega)]
  simp only [List.get_eq_getElem, hindex, hnarrow]

/-- A step in a set returns the element at its index. -/
theorem setStep_eq_ok : setStep var k = .ok x ↔ var.At k x := by
  refine ⟨SetVar.at_of_setStep, fun h => ?_⟩
  obtain ⟨y, hy⟩ := exists_setStep_eq_ok h.exists
  rw [hy, h.unique (SetVar.at_of_setStep hy)]

theorem SetVar.dim_exists_iff : var.dim.Exists k ↔ ∃ x, var.At k x := by
  refine ⟨fun h => ?_, fun ⟨_, hx⟩ => hx.exists⟩
  obtain ⟨x, hx⟩ := exists_setStep_eq_ok h
  exact ⟨x, SetVar.at_of_setStep hx⟩

theorem driStep_eq_ok {var : RangeVar ℤ} {n : ℤ} : driStep var k = .ok n ↔
    (IsInt (k * var.step) ∧ IsInt (var.initial + k * var.step)) ∧ n = var.initial + k * var.step := by
  unfold driStep
  simp only [bind_eq_ok, checkedInt_eq_ok]
  constructor
  · rintro ⟨_, ⟨hp, rfl⟩, hs, hn⟩
    exact ⟨⟨hp, hs⟩, hn⟩
  · rintro ⟨⟨hp, hs⟩, hn⟩
    exact ⟨_, ⟨hp, rfl⟩, hs, hn⟩

end

section

variable {ε α β : Type} {f : α → β} {x : Except ε α} {b : β}

theorem map_eq_ok : f <$> x = .ok b ↔ ∃ a, x = .ok a ∧ b = f a := by
  cases x with
  | error e => simp [Functor.map, Except.map]
  | ok a => simp [Functor.map, Except.map, eq_comm]

end

/-- A step returns the value at that distance, and it returns one if there is one. -/
theorem StudyVar.stepValue_eq_ok [Ring K] [DecidableEq K] {var : StudyVar K} {k : ℤ}
    {value : StudyValue K} : var.stepValue k = .ok value ↔ var.StepExists k ∧ var.At k value := by
  cases var with
  | continuous v => simp [stepValue, StepExists, At, cStep, pure, Except.pure, eq_comm]
  | discreteInt v =>
    cases v with
    | range v =>
      simp only [stepValue, StepExists, At, diStep, map_eq_ok, driStep_eq_ok]
      constructor
      · rintro ⟨_, ⟨hint, rfl⟩, hvalue⟩
        exact ⟨hint, hvalue⟩
      · rintro ⟨hint, hvalue⟩
        exact ⟨_, ⟨hint, rfl⟩, hvalue⟩
    | set v =>
      simp only [stepValue, StepExists, At, diStep, dsiStep, map_eq_ok, setStep_eq_ok]
      exact ⟨fun ⟨x, hx, hvalue⟩ => ⟨hx.exists, x, hx, hvalue⟩, And.right⟩
  | discreteString v =>
    simp only [stepValue, StepExists, At, dssStep, map_eq_ok, setStep_eq_ok]
    exact ⟨fun ⟨x, hx, hvalue⟩ => ⟨hx.exists, x, hx, hvalue⟩, And.right⟩
  | discreteReal v =>
    simp only [stepValue, StepExists, At, dsrStep, map_eq_ok, setStep_eq_ok]
    exact ⟨fun ⟨x, hx, hvalue⟩ => ⟨hx.exists, x, hx, hvalue⟩, And.right⟩

theorem StudyVar.exists_at [Ring K] [DecidableEq K] {var : StudyVar K} {k : ℤ} (h : var.StepExists k) :
    ∃ value, var.At k value := by
  cases var with
  | continuous v => exact ⟨_, rfl⟩
  | discreteInt v =>
    cases v with
    | range v => exact ⟨_, rfl⟩
    | set v =>
      obtain ⟨x, hx⟩ := SetVar.dim_exists_iff.mp h
      exact ⟨_, x, hx, rfl⟩
  | discreteString v =>
    obtain ⟨x, hx⟩ := SetVar.dim_exists_iff.mp h
    exact ⟨_, x, hx, rfl⟩
  | discreteReal v =>
    obtain ⟨x, hx⟩ := SetVar.dim_exists_iff.mp h
    exact ⟨_, x, hx, rfl⟩

/-! ## One loop over all variables -/

section

variable {α β : Type}

def StudyWrites.map (f : α → β) (w : StudyWrites α) : StudyWrites β :=
  ⟨w.cntr, w.log.map fun entry => (entry.1, f entry.2)⟩

theorem StudyWrites.map_write {f : α → β} {w : StudyWrites α} {vars : α} :
    (w.write vars).map f = (w.map f).write (f vars) := by
  simp [map, write]

/-- A loop with mapped states. -/
theorem map_foldlM {ε ι : Type} {g : α → β} {f : α → ι → Except ε α} {k : β → ι → Except ε β}
    {l : List ι} {s : α} (h : ∀ a ∈ l, ∀ s, g <$> f s a = k (g s) a) :
    g <$> l.foldlM f s = l.foldlM k (g s) := by
  induction l generalizing s with
  | nil => rfl
  | cons a l ih =>
    rw [List.foldlM_cons, List.foldlM_cons, ← h a List.mem_cons_self s]
    cases f s a with
    | error e => rfl
    | ok s₁ => exact ih fun b hb => h b (List.mem_cons_of_mem a hb)

theorem map_stepLoop {g : α → β} {step : ℤ → Except StudyError α} {n : ℤ} {w : StudyWrites α} :
    StudyWrites.map g <$> stepLoop n step w = stepLoop n (fun i => g <$> step i) (w.map g) := by
  unfold stepLoop
  rw [map_bind]
  refine bind_congr fun first => ?_
  rw [map_bind]
  refine bind_congr fun range => map_foldlM fun i _ w => ?_
  split_ifs
  · simp only [map_bind, bind_map_left, map_pure, StudyWrites.map_write]
  · rfl

end

variable [Ring K] [DecidableEq K]

/-- The center with one value replaced. -/
def flatStep (center : List (StudyValue K)) (var : (StudyVar K × ℤ) × ℕ) (i : ℤ) :
    Except StudyError (List (StudyValue K)) := do
  let value ← var.1.1.stepValue i
  pure (center.set var.2 value)

/-- The loops over the steps of variables. -/
def flatLoop (center : List (StudyValue K)) (vars : List ((StudyVar K × ℤ) × ℕ))
    (w : StudyWrites (List (StudyValue K))) : Except StudyError (StudyWrites (List (StudyValue K))) :=
  vars.foldlM (fun w var => stepLoop var.1.2 (flatStep center var) w) w

/-- The loop over the variables of one type. -/
theorem map_typeLoop {β : Type} (embed : β → StudyVar K) {l : List (β × ℤ)} {start : ℕ}
    {center : List (StudyValue K)} {step : (β × ℤ) × ℕ → ℤ → Except StudyError (StudyPoint K)}
    {w : StudyWrites (StudyPoint K)}
    (h : ∀ var ∈ l.zipIdx, ∀ i, StudyPoint.values <$> step var i =
      flatStep center ((embed var.1.1, var.1.2), start + var.2) i) :
    StudyWrites.map StudyPoint.values <$>
        l.zipIdx.foldlM (fun w var => stepLoop var.1.2 (step var) w) w =
      flatLoop center ((l.map fun var => (embed var.1, var.2)).zipIdx start)
        (w.map StudyPoint.values) := by
  have hzip : (l.map fun var => (embed var.1, var.2)).zipIdx start =
      l.zipIdx.map fun var => ((embed var.1.1, var.1.2), start + var.2) := by
    rw [List.zipIdx_eq_map_add, List.zipIdx_map, List.map_map]
    rfl
  rw [hzip, flatLoop, List.foldlM_map]
  refine map_foldlM fun var hvar w => ?_
  rw [map_stepLoop]
  exact congrArg (fun step => stepLoop var.1.2 step (w.map StudyPoint.values)) (funext (h var hvar))

section

variable {point : StudyPoint K} {j : ℕ}

omit [Ring K] [DecidableEq K] in
theorem StudyPoint.values_set_cv {x : K} (h : j < point.cv.length) :
    StudyPoint.values { point with cv := point.cv.set j x } = point.values.set j (.real x) := by
  unfold values
  rw [List.map_set, List.set_append_left _ _ (by simpa using h)]

omit [Ring K] [DecidableEq K] in
theorem StudyPoint.values_set_div {x : ℤ} (h : j < point.div.length) :
    StudyPoint.values { point with div := point.div.set j x } =
      point.values.set (point.cv.length + j) (.int x) := by
  unfold values
  rw [List.map_set, List.set_append_right _ _ (by simp), List.length_map, Nat.add_sub_cancel_left,
    List.set_append_left _ _ (by simpa using h)]

omit [Ring K] [DecidableEq K] in
theorem StudyPoint.values_set_dsv {x : String} (h : j < point.dsv.length) :
    StudyPoint.values { point with dsv := point.dsv.set j x } =
      point.values.set (point.cv.length + (point.div.length + j)) (.string x) := by
  unfold values
  rw [List.map_set, List.set_append_right _ _ (by simp), List.length_map, Nat.add_sub_cancel_left,
    List.set_append_right _ _ (by simp), List.length_map, Nat.add_sub_cancel_left,
    List.set_append_left _ _ (by simpa using h)]

omit [Ring K] [DecidableEq K] in
theorem StudyPoint.values_set_drv {x : K} :
    StudyPoint.values { point with drv := point.drv.set j x } =
      point.values.set (point.cv.length + (point.div.length + (point.dsv.length + j))) (.real x) := by
  unfold values
  rw [List.map_set, List.set_append_right _ _ (by simp), List.length_map, Nat.add_sub_cancel_left,
    List.set_append_right _ _ (by simp), List.length_map, Nat.add_sub_cancel_left,
    List.set_append_right _ _ (by simp), List.length_map, Nat.add_sub_cancel_left]

end

omit [Ring K] [DecidableEq K] in
@[simp] theorem StudyPoint.length_center (study : ParamStudy K) :
    study.center.cv.length = study.cv.length ∧ study.center.div.length = study.div.length ∧
      study.center.dsv.length = study.dsv.length ∧ study.center.drv.length = study.drv.length := by
  simp [ParamStudy.center]

/-- One number of steps for each variable. -/
structure StepsMatch (study : ParamStudy K) (steps : ByType ℤ) : Prop where
  c : steps.c.length = study.cv.length
  di : steps.di.length = study.div.length
  ds : steps.ds.length = study.dsv.length
  dr : steps.dr.length = study.drv.length

omit [Ring K] [DecidableEq K] in
theorem StepsMatch.zip_vars {study : ParamStudy K} {steps : ByType ℤ} (h : StepsMatch study steps) :
    study.vars.zip steps.all =
      (study.cv.zip steps.c).map (fun var => (StudyVar.continuous var.1, var.2)) ++
      ((study.div.zip steps.di).map (fun var => (StudyVar.discreteInt var.1, var.2)) ++
      ((study.dsv.zip steps.ds).map (fun var => (StudyVar.discreteString var.1, var.2)) ++
      (study.drv.zip steps.dr).map fun var => (StudyVar.discreteReal var.1, var.2))) := by
  have hmap {β : Type} (embed : β → StudyVar K) (l : List β) (ns : List ℤ) :
      (l.map embed).zip ns = (l.zip ns).map fun var => (embed var.1, var.2) := by
    rw [List.zip_map_left]
    rfl
  unfold ParamStudy.vars ByType.all
  rw [List.append_assoc, List.append_assoc, List.zip_append (by simp [h.c]),
    List.zip_append (by simp [h.di]), List.zip_append (by simp [h.ds]), hmap, hmap, hmap, hmap]

/-- Two parts of a computation, each with mapped states. -/
theorem map_bind_of {ε α β : Type} {g : α → β} {x : Except ε α} {y : Except ε β}
    {f : α → Except ε α} {f' : β → Except ε β} (hx : g <$> x = y) (hf : ∀ a, g <$> f a = f' (g a)) :
    g <$> (x >>= f) = y >>= f' := by
  rw [map_bind, ← hx, bind_map_left]
  exact bind_congr hf

/-- The loops over the types of variables are one loop over all variables. -/
theorem centeredLoop_map {study : ParamStudy K} {steps : ByType ℤ} (h : StepsMatch study steps) :
    StudyWrites.map StudyPoint.values <$> centeredLoop study steps =
      flatLoop study.center.values (study.vars.zip steps.all).zipIdx
        (StudyWrites.write ⟨0, []⟩ study.center.values) := by
  have hc : (study.cv.zip steps.c).length = study.cv.length := by simp [h.c]
  have hdi : (study.div.zip steps.di).length = study.div.length := by simp [h.di]
  have hds : (study.dsv.zip steps.ds).length = study.dsv.length := by simp [h.ds]
  have hlt {β : Type} {l : List β} {ns : List ℤ} {var : (β × ℤ) × ℕ} (hvar : var ∈ (l.zip ns).zipIdx) :
      var.2 < l.length := by
    obtain ⟨v, j⟩ := var
    have hj := (List.mem_zipIdx hvar).2.1
    simp only [List.length_zip] at hj
    omega
  obtain ⟨hcv, hdiv, hdsv, -⟩ := StudyPoint.length_center study
  rw [h.zip_vars]
  simp only [List.zipIdx_append, List.length_map, hc, hdi, hds, flatLoop, List.foldlM_append]
  unfold centeredLoop
  refine map_bind_of (map_typeLoop .continuous fun var hvar i => ?_) fun w => ?_
  · simp only [flatStep, StudyVar.stepValue, map_pure, pure_bind, Nat.zero_add]
    rw [StudyPoint.values_set_cv (by rw [hcv]; exact hlt hvar)]
  refine map_bind_of (map_typeLoop .discreteInt fun var hvar i => ?_) fun w => ?_
  · simp only [flatStep, StudyVar.stepValue, map_bind, bind_map_left, map_pure, Nat.zero_add]
    refine bind_congr fun value => ?_
    rw [StudyPoint.values_set_div (by rw [hdiv]; exact hlt hvar), hcv]
  refine map_bind_of (map_typeLoop .discreteString fun var hvar i => ?_) fun w => ?_
  · simp only [flatStep, StudyVar.stepValue, map_bind, bind_map_left, map_pure, Nat.zero_add]
    refine bind_congr fun value => ?_
    rw [StudyPoint.values_set_dsv (by rw [hdsv]; exact hlt hvar), hcv, hdiv, Nat.add_assoc]
  refine map_typeLoop .discreteReal fun var hvar i => ?_
  simp only [flatStep, StudyVar.stepValue, map_bind, bind_map_left, map_pure, Nat.zero_add]
  refine bind_congr fun value => ?_
  rw [StudyPoint.values_set_drv, hcv, hdiv, hdsv, Nat.add_assoc, Nat.add_assoc]

/-! ## What the loop writes -/

section

variable {α : Type} {w w' : StudyWrites α} {step : ℤ → Except StudyError α} {n : ℤ}

/-- The writes of a list of points. -/
def StudyWrites.writeAll (w : StudyWrites α) (points : List α) : StudyWrites α :=
  points.foldl write w

theorem StudyWrites.writeAll_append {l l' : List α} :
    w.writeAll (l ++ l') = (w.writeAll l).writeAll l' :=
  List.foldl_append

theorem StudyWrites.log_writeAll {points : List α} : (w.writeAll points).log =
    w.log ++ (points.zipIdx w.cntr).map fun entry => (entry.2, entry.1) := by
  induction points generalizing w with
  | nil => simp [writeAll]
  | cons vars points ih =>
    show ((w.write vars).writeAll points).log = _
    rw [ih]
    simp [write]

/-- The sign and the increments of the counter of a loop are `int`s. -/
def LoopDefined (n : ℤ) : Prop := IsInt (-n) ∧ (-n ≤ n → IsInt (n + 1))

theorem foldlM_write_eq_ok {range : List ℤ} :
    range.foldlM (fun w i => if i ≠ 0 then do
        let vars ← step i
        pure (w.write vars)
      else pure w) w = .ok w' ↔
      ∃ points, (range.filter (· ≠ 0)).mapM step = .ok points ∧ w' = w.writeAll points := by
  induction range generalizing w with
  | nil => simp [StudyWrites.writeAll, pure, Except.pure, eq_comm]
  | cons i range ih =>
    rw [List.foldlM_cons, bind_eq_ok]
    by_cases hi : i = 0
    · simp only [hi, ne_eq, not_true, if_false, decide_false, Bool.false_eq_true, not_false_eq_true,
        List.filter_cons_of_neg, ih]
      constructor
      · rintro ⟨_, hw, h⟩
        cases hw
        exact h
      · intro h
        exact ⟨w, rfl, h⟩
    · rw [List.filter_cons_of_pos (by simpa using hi), if_pos hi, List.mapM_cons]
      simp only [bind_eq_ok, ih]
      constructor
      · rintro ⟨_, ⟨vars, hvars, hw⟩, points, hpoints, rfl⟩
        cases hw
        exact ⟨vars :: points, ⟨vars, hvars, points, hpoints, rfl⟩, rfl⟩
      · rintro ⟨_, ⟨vars, hvars, points, hpoints, heq⟩, rfl⟩
        cases heq
        exact ⟨_, ⟨vars, hvars, rfl⟩, points, hpoints, rfl⟩

/-- The loop over the steps of a variable writes the point of each offset. -/
theorem stepLoop_eq_ok : stepLoop n step w = .ok w' ↔
    LoopDefined n ∧ ∃ points, (offsets n).mapM step = .ok points ∧ w' = w.writeAll points := by
  have hrange {range : List ℤ} : intRange StudyError.overflow (-n) n = .ok range ↔
      (-n ≤ n → IsInt (n + 1)) ∧
        range = (List.range (n + 1 - -n).toNat).map fun (i : ℕ) => -n + (i : ℤ) := by
    unfold intRange
    split_ifs with hle
    · simp only [bind_eq_ok, checkedInt_eq_ok]
      constructor
      · rintro ⟨_, ⟨hint, rfl⟩, h⟩
        cases h
        exact ⟨fun _ => hint, rfl⟩
      · rintro ⟨hint, rfl⟩
        exact ⟨_, ⟨hint hle, rfl⟩, rfl⟩
    · have h0 : (n + 1 - -n).toNat = 0 := by omega
      rw [h0]
      simp [hle, pure, Except.pure, eq_comm]
  unfold stepLoop
  simp only [bind_eq_ok, checkedInt_eq_ok]
  constructor
  · rintro ⟨_, ⟨hneg, rfl⟩, range, hok, h⟩
    obtain ⟨hint, rfl⟩ := hrange.mp hok
    exact ⟨⟨hneg, hint⟩, foldlM_write_eq_ok.mp h⟩
  · rintro ⟨⟨hneg, hint⟩, h⟩
    exact ⟨_, ⟨hneg, rfl⟩, _, hrange.mpr ⟨hint, rfl⟩, foldlM_write_eq_ok.mpr h⟩

/-- Loop after loop, over the numbers of steps of all variables. -/
theorem stepLoops_eq_ok {step : ℕ → ℤ → Except StudyError α} {ns : List ℤ} {start : ℕ} :
    (ns.zipIdx start).foldlM (fun w p => stepLoop p.1 (step p.2) w) w = .ok w' ↔
      (∀ n ∈ ns, LoopDefined n) ∧
        ∃ points, (offsetPairs ns start).mapM (fun p => step p.1 p.2) = .ok points ∧
          w' = w.writeAll points := by
  induction ns generalizing w start with
  | nil => simp [offsetPairs_nil, StudyWrites.writeAll, pure, Except.pure, eq_comm]
  | cons n ns ih =>
    rw [List.zipIdx_cons, List.foldlM_cons, bind_eq_ok, offsetPairs_cons, List.mapM_append,
      List.mapM_map]
    simp only [stepLoop_eq_ok, ih, bind_eq_ok, List.forall_mem_cons, Function.comp_def]
    constructor
    · rintro ⟨_, ⟨hn, pts, hpts, rfl⟩, hns, pts', hpts', rfl⟩
      exact ⟨⟨hn, hns⟩, pts ++ pts', ⟨pts, hpts, pts', hpts', rfl⟩,
        StudyWrites.writeAll_append.symm⟩
    · rintro ⟨⟨hn, hns⟩, _, ⟨pts, hpts, pts', hpts', heq⟩, rfl⟩
      cases heq
      exact ⟨_, ⟨hn, pts, hpts, rfl⟩, hns, pts', hpts', StudyWrites.writeAll_append⟩

end

/-- The center with the value of a variable some steps away. -/
def movedCenter (study : ParamStudy K) (var : ℕ) (k : ℤ) :
    Except StudyError (List (StudyValue K)) :=
  match study.vars[var]? with
  | some v => flatStep study.center.values ((v, 0), var) k
  | none => .error .outOfBounds

theorem flatLoop_eq {study : ParamStudy K} {ns : List ℤ} (h : ns.length = study.vars.length)
    {w : StudyWrites (List (StudyValue K))} :
    flatLoop study.center.values (study.vars.zip ns).zipIdx w =
      ns.zipIdx.foldlM (fun w p => stepLoop p.1 (movedCenter study p.2) w) w := by
  have hzip : ns.zipIdx = (study.vars.zip ns).zipIdx.map fun p => (p.1.2, p.2) := by
    have hmap : (study.vars.zip ns).zipIdx.map (fun p => (p.1.2, p.2)) =
        ((study.vars.zip ns).map Prod.snd).zipIdx := by
      rw [List.zipIdx_map]
      rfl
    rw [hmap, List.map_snd_zip h.le]
  rw [hzip, List.foldlM_map, flatLoop]
  have hloop := map_foldlM (g := id) (s := w) (l := (study.vars.zip ns).zipIdx)
    (f := fun w var => stepLoop var.1.2 (flatStep study.center.values var) w)
    (k := fun w var => stepLoop var.1.2 (movedCenter study var.2) w) fun var hvar w => ?_
  · rwa [id_map] at hloop
  · obtain ⟨⟨v, n⟩, j⟩ := var
    have hv : study.vars[j]? = some v := by
      obtain ⟨-, hj, heq⟩ := List.mem_zipIdx hvar
      have hget := congrArg Prod.fst heq
      rw [List.getElem_zip] at hget
      exact List.getElem?_eq_some_iff.mpr ⟨_, hget.symm⟩
    have hstep : flatStep study.center.values ((v, n), j) = movedCenter study j := by
      funext k
      unfold movedCenter
      rw [hv]
      rfl
    rw [id_map, hstep]
    rfl

/-- What a centered study writes: the center, and the pairs of a variable and an offset in their
order. -/
theorem centeredLoop_eq_ok {study : ParamStudy K} {steps : ByType ℤ} (h : StepsMatch study steps)
    {w' : StudyWrites (List (StudyValue K))} :
    StudyWrites.map StudyPoint.values <$> centeredLoop study steps = .ok w' ↔
      (∀ n ∈ steps.all, LoopDefined n) ∧
        ∃ points, (offsetPairs steps.all 0).mapM (fun p => movedCenter study p.1 p.2) = .ok points ∧
          w' = (StudyWrites.write ⟨0, []⟩ study.center.values).writeAll points := by
  have hlen : steps.all.length = study.vars.length := by
    simp [ByType.all, ParamStudy.vars, h.c, h.di, h.ds, h.dr]
  rw [centeredLoop_map h, flatLoop_eq hlen, stepLoops_eq_ok]

/-! ## What the decoder finds -/

theorem toSizeT_of_lt {x : ℤ} (h : 0 ≤ x) (hlt : x < 2 ^ 64) : toSizeT x = x.toNat := by
  unfold toSizeT
  rw [Int.emod_eq_of_lt h hlt]

/-- The decoder returns only where twice the number of steps is an `int`. -/
theorem isInt_of_findVarStep {studyIdx : ℕ} {ns : List ℤ} {offset start : ℕ} {var step : ℕ}
    (h : findVarStep studyIdx ns offset start = .ok (var, step)) :
    start ≤ var ∧ ∃ n, ns[var - start]? = some n ∧ IsInt (2 * n) := by
  induction ns generalizing offset start with
  | nil => cases h
  | cons n ns ih =>
    obtain ⟨twice, htwice, h⟩ := bind_eq_ok.mp h
    obtain ⟨hint, rfl⟩ := checkedInt_eq_ok.mp htwice
    simp only at h
    split at h
    · cases h
      exact ⟨le_rfl, n, by simp, hint⟩
    · obtain ⟨hle, m, hm, hint'⟩ := ih h
      refine ⟨by omega, m, ?_, hint'⟩
      rwa [show var - start = var - (start + 1) + 1 by omega, List.getElem?_cons_succ]

/-- The decoder finds the pair that stands at a position. -/
theorem findVarStep_eq_ok {ns : List ℤ} {offset start p : ℕ} {var : ℕ} {k : ℤ}
    (hns : ∀ n ∈ ns, 0 ≤ n ∧ n < 2 ^ 30)
    (hlt : (offset : ℤ) + 2 * ns.sum < 2 ^ 64) (hp : (offsetPairs ns start)[p]? = some (var, k)) :
    ∃ (n : ℤ) (step : ℕ), ns[var - start]? = some n ∧ start ≤ var ∧ (step : ℤ) = k + n ∧
      findVarStep (offset + p) ns offset start = .ok (var, step) := by
  induction ns generalizing offset start p with
  | nil => simp [offsetPairs_nil] at hp
  | cons n ns ih =>
    obtain ⟨hn, htail⟩ := List.forall_mem_cons.mp hns
    obtain ⟨m, rfl⟩ := Int.eq_ofNat_of_zero_le hn.1
    have hsum : 0 ≤ ns.sum := List.sum_nonneg fun n hn => (htail n hn).1
    rw [List.sum_cons] at hlt
    have htwice : checkedInt StudyError.overflow (2 * (m : ℤ)) = .ok (2 * (m : ℤ)) :=
      checkedInt_of_isInt ⟨by omega, by omega⟩
    have hnext : toSizeT (offset + 2 * (m : ℤ)) = offset + 2 * m := by
      rw [toSizeT_of_lt (by omega) (by omega)]
      omega
    have hm : toSizeT (m : ℤ) = m := by
      rw [toSizeT_of_lt (by omega) (by omega)]
      omega
    rw [offsetPairs_cons] at hp
    unfold findVarStep
    rw [htwice]
    simp only [bind, Except.bind, hnext, hm]
    by_cases hlt' : p < 2 * m
    · have hback : toSizeT ((offset + p : ℕ) - (offset : ℤ)) = p := by
        rw [toSizeT_of_lt (by omega) (by omega)]
        omega
      have hback' : toSizeT ((p : ℤ) + 1) = p + 1 := by
        rw [toSizeT_of_lt (by omega) (by omega)]
        omega
      rw [if_pos (by omega), hback, hback']
      rw [List.getElem?_append_left (by rw [List.length_map, length_offsets]; omega),
        List.getElem?_map, getElem?_offsets hlt'] at hp
      cases hp
      refine ⟨m, _, by simp, le_rfl, ?_, rfl⟩
      split_ifs <;> push_cast <;> omega
    · rw [if_neg (by omega)]
      have hlen : ((offsets (m : ℤ)).map fun k => (start, k)).length = 2 * m := by
        rw [List.length_map, length_offsets]
        omega
      rw [List.getElem?_append_right (by rw [hlen]; omega), hlen] at hp
      obtain ⟨n, step, hget, hle, hstep, hfind⟩ :=
        ih htail (show ((offset + 2 * m : ℕ) : ℤ) + 2 * ns.sum < 2 ^ 64 by push_cast; omega) hp
      refine ⟨n, step, ?_, by omega, hstep, ?_⟩
      · rwa [show var - start = var - (start + 1) + 1 by omega, List.getElem?_cons_succ]
      · rwa [show offset + 2 * m + (p - 2 * m) = offset + p by omega] at hfind

/-! ## What the check counts -/

section

variable {study : ParamStudy K} {stepsPerVar : List ℤ} {checked : CheckedSteps}

theorem length_distribute {α : Type} {totals : List CategoryTotals} {all : List α}
    (h : all.length = (totals.map CategoryTotals.c).sum + (totals.map CategoryTotals.di).sum +
      (totals.map CategoryTotals.ds).sum + (totals.map CategoryTotals.dr).sum) :
    (distribute totals all).c.length = (totals.map CategoryTotals.c).sum ∧
      (distribute totals all).di.length = (totals.map CategoryTotals.di).sum ∧
      (distribute totals all).ds.length = (totals.map CategoryTotals.ds).sum ∧
      (distribute totals all).dr.length = (totals.map CategoryTotals.dr).sum := by
  induction totals generalizing all with
  | nil => exact ⟨rfl, rfl, rfl, rfl⟩
  | cons t totals ih =>
    simp only [List.map_cons, List.sum_cons] at h ⊢
    have hrest := @ih (all.drop (t.c + t.di + t.ds + t.dr)) (by rw [List.length_drop]; omega)
    obtain ⟨hc, hdi, hds, hdr⟩ := hrest
    simp only [distribute, List.length_append, List.length_take, List.length_drop, hc, hdi, hds, hdr]
    omega

theorem addAbs_eq_ok {spvSum spvSum' : ℕ} {steps : List ℤ} :
    addAbs spvSum steps = .ok spvSum' ↔
      (∀ n ∈ steps, IsInt |n|) ∧ spvSum' = spvSum + (steps.map Int.natAbs).sum := by
  unfold addAbs
  induction steps generalizing spvSum with
  | nil => simp [pure, Except.pure, eq_comm]
  | cons n steps ih =>
    rw [List.foldlM_cons]
    simp only [bind_eq_ok, checkedInt_eq_ok, ih, List.forall_mem_cons, List.map_cons, List.sum_cons]
    have habs : |n|.toNat = n.natAbs := by rw [Int.abs_eq_natAbs, Int.toNat_natCast]
    constructor
    · rintro ⟨_, ⟨_, ⟨hn, rfl⟩, hsum⟩, hns, rfl⟩
      cases hsum
      exact ⟨⟨hn, hns⟩, by rw [habs, Nat.add_assoc]⟩
    · rintro ⟨⟨hn, hns⟩, rfl⟩
      exact ⟨_, ⟨_, ⟨hn, rfl⟩, rfl⟩, hns, by rw [habs, Nat.add_assoc]⟩

/-- What the check of a vector of steps sets. -/
structure Counted (study : ParamStudy K) (checked : CheckedSteps) : Prop where
  steps_match : StepsMatch study checked.steps
  all_eq : checked.stepsPerVariable = checked.steps.all
  numEvals_eq : checked.numEvals = 2 * (checked.stepsPerVariable.map Int.natAbs).sum + 1

omit [Ring K] [DecidableEq K] in
theorem counted_of_addAbs {steps : ByType ℤ} {spv : List ℤ} (hmatch : StepsMatch study steps)
    (hall : spv = steps.all)
    (h : (do
      let spvSum ← addAbs 0 steps.c
      let spvSum ← addAbs spvSum steps.di
      let spvSum ← addAbs spvSum steps.ds
      let spvSum ← addAbs spvSum steps.dr
      pure (some (⟨steps, spv, 2 * spvSum + 1⟩ : CheckedSteps))) = .ok (some checked)) :
    Counted study checked := by
  simp only [bind_eq_ok, addAbs_eq_ok] at h
  obtain ⟨_, ⟨-, rfl⟩, _, ⟨-, rfl⟩, _, ⟨-, rfl⟩, _, ⟨-, rfl⟩, h⟩ := h
  cases h
  refine ⟨hmatch, hall, ?_⟩
  simp only [hall, ByType.all, List.map_append, List.sum_append]
  omega

omit [Ring K] [DecidableEq K] in
theorem checkStepsPerVariable_counted
    (h : checkStepsPerVariable study stepsPerVar = .ok (some checked)) : Counted study checked := by
  unfold checkStepsPerVariable at h
  have hvars : study.numVars = (study.totals.map CategoryTotals.c).sum +
      (study.totals.map CategoryTotals.di).sum + (study.totals.map CategoryTotals.ds).sum +
      (study.totals.map CategoryTotals.dr).sum := by
    rw [ParamStudy.numVars, study.cv_totals, study.div_totals, study.dsv_totals, study.drv_totals]
  simp only at h
  split_ifs at h with hlen
  · obtain ⟨hc, hdi, hds, hdr⟩ := length_distribute (hlen.trans hvars)
    exact counted_of_addAbs ⟨hc.trans study.cv_totals.symm,
      hdi.trans study.div_totals.symm, hds.trans study.dsv_totals.symm,
      hdr.trans study.drv_totals.symm⟩ rfl h
  · rcases stepsPerVar with _ | ⟨n, _ | ⟨n', rest⟩⟩
    · cases h
    · refine counted_of_addAbs ⟨?_, ?_, ?_, ?_⟩ ?_ h
      · exact List.length_replicate
      · exact List.length_replicate
      · exact List.length_replicate
      · exact List.length_replicate
      · simp only [ByType.all, List.replicate_append_replicate, ParamStudy.numVars]
    · cases h

end

/-! ## Consistency -/

section

variable {study : ParamStudy K} {checked : CheckedSteps}

/-- The center with one variable moved by `k` times its step. -/
def Moved (study : ParamStudy K) (var : ℕ) (k : ℤ) (values : List (StudyValue K)) : Prop :=
  ∃ v value, study.vars[var]? = some v ∧ v.At k value ∧ values = study.center.values.set var value

/-- The loop fills the counted slots, and the decoder says what is in them. -/
structure CenteredConsistent (study : ParamStudy K) (checked : CheckedSteps) : Prop where
  fills : ∃ w, StudyWrites.map StudyPoint.values <$> centeredLoop study checked.steps = .ok w ∧
    w.log.map Prod.fst = List.range checked.numEvals ∧
    w.log.head? = some (0, study.center.values) ∧
    ∀ slot values, (slot, values) ∈ w.log → slot ≠ 0 → ∃ (var : ℕ) (n k : ℤ) (step : ℕ),
      checked.stepsPerVariable[var]? = some n ∧ k ≠ 0 ∧ |k| ≤ n ∧ Moved study var k values ∧
      indexToVarStep checked.stepsPerVariable slot = .ok (var, step) ∧ (step : ℤ) = k + n
  onto : ∀ (var : ℕ) (n k : ℤ), checked.stepsPerVariable[var]? = some n → k ≠ 0 → |k| ≤ |n| →
    ∃! slot, (slot ≠ 0 ∧ slot < checked.numEvals) ∧ ∃ step : ℕ,
      indexToVarStep checked.stepsPerVariable slot = .ok (var, step) ∧ (step : ℤ) = k + n

/-- No number of steps is negative or, twice, not an `int`, and every step that is taken exists. -/
structure StepsFit (study : ParamStudy K) (checked : CheckedSteps) : Prop where
  nonneg : ∀ n ∈ checked.stepsPerVariable, 0 ≤ n ∧ n < 2 ^ 30
  exist : ∀ (var : ℕ) v (n k : ℤ), study.vars[var]? = some v →
    checked.stepsPerVariable[var]? = some n → k ≠ 0 → |k| ≤ n → v.StepExists k

theorem movedCenter_eq_ok {var : ℕ} {k : ℤ} {values : List (StudyValue K)} :
    movedCenter study var k = .ok values ↔
      ∃ v value, study.vars[var]? = some v ∧ v.StepExists k ∧ v.At k value ∧
        values = study.center.values.set var value := by
  unfold movedCenter
  cases study.vars[var]? with
  | none => simp
  | some v =>
    simp only [flatStep, bind_eq_ok, StudyVar.stepValue_eq_ok]
    constructor
    · rintro ⟨value, ⟨hexists, hat⟩, h⟩
      cases h
      exact ⟨v, value, rfl, hexists, hat, rfl⟩
    · rintro ⟨_, value, hv, hexists, hat, rfl⟩
      cases hv
      exact ⟨value, ⟨hexists, hat⟩, rfl⟩

omit [Ring K] [DecidableEq K] in
theorem length_vars : study.vars.length = study.numVars := by
  simp [ParamStudy.vars, ParamStudy.numVars, Nat.add_assoc]

omit [Ring K] [DecidableEq K] in
theorem Counted.length_all (h : Counted study checked) :
    checked.stepsPerVariable.length = study.numVars := by
  rw [h.all_eq]
  simp [ByType.all, ParamStudy.numVars, h.steps_match.c, h.steps_match.di, h.steps_match.ds,
    h.steps_match.dr, Nat.add_assoc]

omit [Ring K] [DecidableEq K] in
/-- The log of the writes: the center in slot `0`, and point after point. -/
theorem log_writes {center : List (StudyValue K)} {points : List (List (StudyValue K))} :
    ((StudyWrites.write ⟨0, []⟩ center).writeAll points).log =
      (0, center) :: (points.zipIdx 1).map fun entry => (entry.2, entry.1) := by
  rw [StudyWrites.log_writeAll]
  rfl

omit [Ring K] [DecidableEq K] in
theorem slots_writes {center : List (StudyValue K)} {points : List (List (StudyValue K))} :
    ((StudyWrites.write ⟨0, []⟩ center).writeAll points).log.map Prod.fst =
      List.range (points.length + 1) := by
  rw [log_writes, List.map_cons, List.map_map, List.range_eq_range', List.range'_succ]
  exact congrArg (0 :: ·) (List.zipIdx_map_snd 1 points)

omit [Ring K] [DecidableEq K] in
theorem mem_log_writes {center values : List (StudyValue K)} {points : List (List (StudyValue K))}
    {slot : ℕ} (hslot : slot ≠ 0) :
    (slot, values) ∈ ((StudyWrites.write ⟨0, []⟩ center).writeAll points).log ↔
      ∃ p, slot = 1 + p ∧ points[p]? = some values := by
  rw [log_writes, List.mem_cons, List.mem_map]
  constructor
  · rintro (heq | ⟨⟨vars, i⟩, hmem, heq⟩)
    · exact absurd (congrArg Prod.fst heq) hslot
    · cases heq
      obtain ⟨hle, hget⟩ := List.mk_mem_zipIdx_iff_le_and_getElem?_sub.mp hmem
      exact ⟨i - 1, (Nat.add_sub_cancel' hle).symm, hget⟩
  · rintro ⟨p, rfl, hp⟩
    refine .inr ⟨(values, 1 + p), ?_, rfl⟩
    exact List.mk_mem_zipIdx_iff_le_and_getElem?_sub.mpr
      ⟨Nat.le_add_right 1 p, by rwa [Nat.add_sub_cancel_left]⟩

/-- As many slots are filled as are counted only if no number of steps is negative. -/
theorem nonneg_of_length {ns : List ℤ}
    (h : (ns.map fun n => (2 * n).toNat).sum = 2 * (ns.map Int.natAbs).sum) : ∀ n ∈ ns, 0 ≤ n := by
  have hle : ∀ ns : List ℤ, (ns.map fun n => (2 * n).toNat).sum ≤ 2 * (ns.map Int.natAbs).sum := by
    intro ns
    induction ns with
    | nil => simp
    | cons n ns ih =>
      simp only [List.map_cons, List.sum_cons]
      omega
  induction ns with
  | nil => simp
  | cons n ns ih =>
    have hns := hle ns
    simp only [List.map_cons, List.sum_cons] at h
    rw [List.forall_mem_cons]
    exact ⟨by omega, ih (by omega)⟩

theorem sum_toNat_of_nonneg {ns : List ℤ} (h : ∀ n ∈ ns, 0 ≤ n) :
    (ns.map fun n => (2 * n).toNat).sum = 2 * (ns.map Int.natAbs).sum := by
  induction ns with
  | nil => rfl
  | cons n ns ih =>
    rw [List.forall_mem_cons] at h
    simp only [List.map_cons, List.sum_cons, ih h.2]
    have hn := h.1
    omega

omit [Ring K] [DecidableEq K] in
/-- The counters of the decoder stay far from the end of `size_t`. -/
theorem Counted.sum_lt (h : Counted study checked)
    (hnonneg : ∀ n ∈ checked.stepsPerVariable, 0 ≤ n ∧ n < 2 ^ 30) :
    ((1 : ℕ) : ℤ) + 2 * checked.stepsPerVariable.sum < 2 ^ 64 := by
  have hsum : checked.stepsPerVariable.sum ≤ checked.stepsPerVariable.length • (2 ^ 30 : ℤ) :=
    List.sum_le_card_nsmul _ _ fun n hn => (hnonneg n hn).2.le
  rw [h.length_all, nsmul_eq_mul] at hsum
  have hlen : study.numVars < 2 ^ 31 := study.numVars_int
  omega

/-- **Centered studies**: loop, count and decoder agree if and only if no number of steps is negative
(or so large that twice of it is not an `int`) and the steps that are taken exist. -/
theorem centeredConsistent_iff {stepsPerVar : List ℤ}
    (h : checkStepsPerVariable study stepsPerVar = .ok (some checked)) :
    CenteredConsistent study checked ↔ StepsFit study checked := by
  have hcounted := checkStepsPerVariable_counted h
  have hall := hcounted.all_eq
  have hrun {w : StudyWrites (List (StudyValue K))} :
      StudyWrites.map StudyPoint.values <$> centeredLoop study checked.steps = .ok w ↔ _ :=
    centeredLoop_eq_ok hcounted.steps_match
  rw [← hall] at hrun
  have hmem {var : ℕ} {k : ℤ} : (var, k) ∈ offsetPairs checked.stepsPerVariable 0 ↔
      ∃ n, checked.stepsPerVariable[var]? = some n ∧ k ≠ 0 ∧ |k| ≤ n := by
    rw [mem_offsetPairs]
    simp
  constructor
  · intro hcons
    obtain ⟨w, hw, hslots, -⟩ := hcons.fills
    obtain ⟨-, points, hpoints, rfl⟩ := hrun.mp hw
    have hlen : points.length = (offsetPairs checked.stepsPerVariable 0).length :=
      (mapM_eq_ok.mp hpoints).length_eq.symm
    have hnonneg : ∀ n ∈ checked.stepsPerVariable, 0 ≤ n := by
      refine nonneg_of_length ?_
      have hcount := congrArg List.length (slots_writes.symm.trans hslots)
      rw [List.length_range, List.length_range, hlen, length_offsetPairs, hcounted.numEvals_eq]
        at hcount
      omega
    constructor
    case nonneg =>
      intro n hn
      refine ⟨hnonneg n hn, ?_⟩
      by_contra hbig
      obtain ⟨var, hvar⟩ := List.getElem?_of_mem hn
      obtain ⟨slot, ⟨-, step, hfind, -⟩, -⟩ :=
        hcons.onto var n 1 hvar one_ne_zero (by rw [abs_one]; exact le_abs.mpr (.inl (by omega)))
      obtain ⟨-, m, hm, hint⟩ := isInt_of_findVarStep hfind
      rw [Nat.sub_zero, hvar] at hm
      cases hm
      unfold IsInt at hint
      omega
    case exist =>
      intro var v n k hv hn hk hle
      obtain ⟨values, hvalues⟩ := exists_mapM_eq_ok.mp ⟨points, hpoints⟩ (var, k)
        (hmem.mpr ⟨n, hn, hk, hle⟩)
      obtain ⟨v', _, hv', hexists, -⟩ := movedCenter_eq_ok.mp hvalues
      cases hv.symm.trans hv'
      exact hexists
  · intro hfit
    have hnonneg := hfit.nonneg
    have hnum : checked.numEvals = (offsetPairs checked.stepsPerVariable 0).length + 1 := by
      rw [hcounted.numEvals_eq, length_offsetPairs,
        sum_toNat_of_nonneg fun n hn => (hnonneg n hn).1]
    have hfind {p var : ℕ} {k : ℤ}
        (hp : (offsetPairs checked.stepsPerVariable 0)[p]? = some (var, k)) :
        ∃ (n : ℤ) (step : ℕ), checked.stepsPerVariable[var]? = some n ∧ (step : ℤ) = k + n ∧
          indexToVarStep checked.stepsPerVariable (1 + p) = .ok (var, step) := by
      obtain ⟨n, step, hn, -, hstep, hok⟩ :=
        findVarStep_eq_ok hnonneg (hcounted.sum_lt hnonneg) hp
      exact ⟨n, step, hn, hstep, hok⟩
    have hstep : ∀ p ∈ offsetPairs checked.stepsPerVariable 0,
        ∃ values, movedCenter study p.1 p.2 = .ok values := by
      rintro ⟨var, k⟩ hp
      obtain ⟨n, hn, hk, hle⟩ := hmem.mp hp
      have hlt : var < study.vars.length := by
        rw [length_vars, ← hcounted.length_all]
        exact (List.getElem?_eq_some_iff.mp hn).1
      have hv := List.getElem?_eq_getElem hlt
      have hexists := hfit.exist var _ n k hv hn hk hle
      obtain ⟨value, hat⟩ := StudyVar.exists_at hexists
      exact ⟨_, movedCenter_eq_ok.mpr ⟨_, value, hv, hexists, hat, rfl⟩⟩
    obtain ⟨points, hpoints⟩ := exists_mapM_eq_ok.mpr hstep
    have hforall := mapM_eq_ok.mp hpoints
    constructor
    case fills =>
      refine ⟨_, hrun.mpr ⟨fun n hn => ?_, points, hpoints, rfl⟩, ?_, ?_, ?_⟩
      · obtain ⟨hle, hlt⟩ := hnonneg n hn
        exact ⟨⟨by omega, by omega⟩, fun _ => ⟨by omega, by omega⟩⟩
      · rw [slots_writes, hnum, hforall.length_eq]
      · rw [log_writes]
        rfl
      · intro slot values hvalues hslot
        obtain ⟨p, rfl, hp⟩ := (mem_log_writes hslot).mp hvalues
        have hlt : p < (offsetPairs checked.stepsPerVariable 0).length := by
          rw [hforall.length_eq]
          exact (List.getElem?_eq_some_iff.mp hp).1
        obtain ⟨⟨var, k⟩, hpair⟩ : ∃ pair, (offsetPairs checked.stepsPerVariable 0)[p]? = some pair :=
          ⟨_, List.getElem?_eq_getElem hlt⟩
        obtain ⟨n, step, hn, hstep, hok⟩ := hfind hpair
        obtain ⟨m, hm, hk, hle⟩ := hmem.mp (List.mem_of_getElem? hpair)
        cases hn.symm.trans hm
        have hok' : movedCenter study var k = .ok values := by
          obtain ⟨h₁, heq₁⟩ := List.getElem?_eq_some_iff.mp hpair
          obtain ⟨h₂, heq₂⟩ := List.getElem?_eq_some_iff.mp hp
          have hget := hforall.get h₁ h₂
          simp only [List.get_eq_getElem, heq₁, heq₂] at hget
          exact hget
        obtain ⟨v, value, hv, -, hat, hset⟩ := movedCenter_eq_ok.mp hok'
        exact ⟨var, n, k, step, hn, hk, hle, ⟨v, value, hv, hat, hset⟩, hok, hstep⟩
    case onto =>
      intro var n k hn hk hle
      have hle' : |k| ≤ n := hle.trans (abs_of_nonneg (hnonneg n (List.mem_of_getElem? hn)).1).le
      obtain ⟨p, hp⟩ := List.getElem?_of_mem (hmem.mpr ⟨n, hn, hk, hle'⟩)
      have hplt := (List.getElem?_eq_some_iff.mp hp).1
      obtain ⟨n', step, hn', hstep, hok⟩ := hfind hp
      cases hn.symm.trans hn'
      refine ⟨1 + p, ⟨⟨by omega, by omega⟩, step, hok, hstep⟩, ?_⟩
      rintro slot ⟨⟨hslot, hlt⟩, step', hok', hstep'⟩
      obtain ⟨q, rfl⟩ : ∃ q, slot = 1 + q := ⟨slot - 1, by omega⟩
      have hqlt : q < (offsetPairs checked.stepsPerVariable 0).length := by omega
      obtain ⟨⟨var', k'⟩, hq⟩ : ∃ pair, (offsetPairs checked.stepsPerVariable 0)[q]? = some pair :=
        ⟨_, List.getElem?_eq_getElem hqlt⟩
      obtain ⟨m, stepq, hm, hstepq, hokq⟩ := hfind hq
      -- the same variable and the same step: the same pair
      cases hok'.symm.trans hokq
      cases hn.symm.trans hm
      have hkk : k' = k := by omega
      have hpair : (offsetPairs checked.stepsPerVariable 0)[q]? =
          (offsetPairs checked.stepsPerVariable 0)[p]? := by rw [hq, hp, hkk]
      exact congrArg (1 + ·) ((List.getElem?_inj hqlt nodup_offsetPairs).mp hpair)

/-- Two continuous variables. -/
def twoVariableStudy : ParamStudy ℚ where
  cv := [⟨0, 1⟩, ⟨0, 1⟩]
  div := []
  dsv := []
  drv := []
  totals := [⟨2, 0, 0, 0⟩]
  cv_totals := by decide
  div_totals := by decide
  dsv_totals := by decide
  drv_totals := by decide
  numVars_int := by decide

/-- With a negative number of steps the check counts five evaluations, and the loop fills three slots. -/
theorem negativeSteps_counted :
    checkStepsPerVariable twoVariableStudy [-1, 1] =
        .ok (some ⟨⟨[-1, 1], [], [], []⟩, [-1, 1], 5⟩) ∧
      ¬ CenteredConsistent twoVariableStudy ⟨⟨[-1, 1], [], [], []⟩, [-1, 1], 5⟩ := by
  refine ⟨rfl, fun h => ?_⟩
  obtain ⟨w, hw, hslots, -⟩ := h.fills
  have hlen : (StudyWrites.map StudyPoint.values <$>
      centeredLoop twoVariableStudy ⟨[-1, 1], [], [], []⟩).map (fun w => w.log.length) = .ok 3 := rfl
  rw [hw] at hlen
  have h3 : w.log.length = 3 := Except.ok.inj hlen
  have h5 := congrArg List.length hslots
  rw [List.length_map, h3, List.length_range] at h5
  cases h5

/-- Two steps to both sides of one variable, and none of the other. -/
theorem centeredConsistent_iff_two :
    CenteredConsistent twoVariableStudy ⟨⟨[2, 0], [], [], []⟩, [2, 0], 5⟩ ↔
      StepsFit twoVariableStudy ⟨⟨[2, 0], [], [], []⟩, [2, 0], 5⟩ :=
  centeredConsistent_iff (show checkStepsPerVariable twoVariableStudy [2, 0] = _ from rfl)

end

end Dakota
