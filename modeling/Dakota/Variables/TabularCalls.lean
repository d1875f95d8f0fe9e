import Dakota.Variables.AllOrder

/-!
# Reading and writing variables

`read_core`, `write_core` and `write_partial_core` of `RelaxedVariables` and `MixedVariables`
(`src/src/RelaxedVariables.cpp`, `src/src/MixedVariables.cpp`), as the calls that they make of their
handler. The handler reads or writes a range of one array, and changes neither the offsets nor the
counters, so that readers and writers of one part make the same calls.

* The calls are `none` where a bit is read behind the end of the bits.
* `Walk.Follows`: the entries that calls are about, for a list of slots. The entries are numbered
  from the offsets (`number`).
-/

namespace Dakota

/-- `read_handler` or `write_handler` of `numItems` entries of an array. -/
structure Call where
  array : VarDomain
  startIndex : Nat
  numItems : Nat
deriving DecidableEq, Repr

/-- An array and an index. -/
abbrev VarRef := VarDomain × Nat

/-- The entries that a call is about. -/
def Call.refs (c : Call) : List VarRef := (List.range' c.startIndex c.numItems).map (c.array, ·)

/-- `acv_offset`, `adiv_offset`, `adsv_offset` and `adrv_offset`, and the calls so far. -/
structure Walk where
  offset : Counts
  calls : List Call

/-- An offset moved by `n`. -/
def Counts.bump (num : Counts) (d : VarDomain) (n : Nat) : Counts :=
  fun e => if e = d then num e + n else num e

/-- A call for `n` entries, with the offset moved behind them. -/
def Walk.call (w : Walk) (d : VarDomain) (n : Nat) : Walk where
  offset := w.offset.bump d n
  calls := w.calls ++ [⟨d, w.offset d, n⟩]

namespace SharedVariablesData

variable (svd : SharedVariablesData)

/-- `for (i=0; i<num; ++i, ++cntr) if (relax[cntr]) handler(s, acv_offset++, ...) else ...` -/
def relaxedLoop (bits : List Bool) (d : VarDomain) : Nat → Nat → Walk → Option Walk
  | 0, _, w => some w
  | num + 1, cntr, w => do
    let relax ← bits[cntr]?
    relaxedLoop bits d num (cntr + 1) (w.call (relaxTo d relax) 1)

/-- The calls for one group, whose bits start at `ardiCntr` and `ardrCntr`. -/
def relaxedGroup (num : Counts) (ardiCntr ardrCntr : Nat) (w : Walk) : Option Walk := do
  let w := w.call .cv (num .cv)
  let w ← relaxedLoop svd.allRelaxedDiscreteInt .div (num .div) ardiCntr w
  let w := w.call .dsv (num .dsv)
  relaxedLoop svd.allRelaxedDiscreteReal .drv (num .drv) ardrCntr w

/-- The groups of `RelaxedVariables::read_core` and `RelaxedVariables::write_core` -/
def relaxedGroups (vcTotals : VarGroup → Counts) : List VarGroup → Nat → Nat → Walk → Option Walk
  | [], _, _, w => some w
  | g :: gs, ardiCntr, ardrCntr, w => do
    let w ← svd.relaxedGroup (vcTotals g) ardiCntr ardrCntr w
    relaxedGroups vcTotals gs (ardiCntr + vcTotals g .div) (ardrCntr + vcTotals g .drv) w

/-- The groups of `MixedVariables::read_core` and `MixedVariables::write_core` -/
def mixedGroups (vcTotals : VarGroup → Counts) (groups : List VarGroup) (w : Walk) : Walk :=
  groups.foldl (fun w g => (((w.call .cv (vcTotals g .cv)).call .div (vcTotals g .div)).call .dsv
    (vcTotals g .dsv)).call .drv (vcTotals g .drv)) w

/-- `ALL_VARS`, `ACTIVE_VARS`, `INACTIVE_VARS` -/
inductive VarsPart where
  | allVars
  | activeVars
  | inactiveVars
deriving DecidableEq, Repr

/-- `active_components_totals` and `inactive_components_totals`, by the groups of a view. -/
def viewComponentsTotals (own : List VarGroup) (g : VarGroup) : Counts :=
  if g ∈ own then svd.variablesCompsTotals g else fun _ => 0

/-- The groups of a view. -/
def viewGroups : View → List VarGroup
  | .emptyView => []
  | .relaxed s => ownGroups s
  | .mixed s => ownGroups s

/-- `vc_totals` and the offsets at the start of `read_core` and `write_core`. -/
def partStart (view : View × View) : VarsPart → Option ((VarGroup → Counts) × Counts)
  | .allVars => some (svd.variablesCompsTotals, fun _ => 0)
  | .activeVars => do
    let sc ← svd.viewStartCounts view.1
    return (svd.viewComponentsTotals (viewGroups view.1), sc.start)
  | .inactiveVars => do
    let sc ← svd.viewStartCounts view.2
    return (svd.viewComponentsTotals (viewGroups view.2), sc.start)

/-- The calls of `read_core` and `write_core` of `RelaxedVariables` or `MixedVariables` -/
def coreCalls (family : ViewFamily) (view : View × View) (part : VarsPart) :
    Option (List Call) := do
  let (vcTotals, offset) ← svd.partStart view part
  let w ← match family with
    | .relaxed => svd.relaxedGroups vcTotals allGroups 0 0 ⟨offset, []⟩
    | .mixed => some (mixedGroups vcTotals allGroups ⟨offset, []⟩)
  return w.calls

end SharedVariablesData

/-! ## Part of the variables -/

/-- The offsets, `av_cntr` and the calls so far. -/
structure PartialWalk extends Walk where
  avCntr : Nat

/-- A loop of `write_partial_core`. The array of item `i` is `array i`. The flag is set when the loop
returns. -/
def partialLoop (startIndex endIndex : Nat) (array : Nat → Option VarDomain) :
    Nat → Nat → PartialWalk → Option (Bool × PartialWalk)
  | 0, _, w => some (false, w)
  | num + 1, i, w => do
    let d ← array i
    if startIndex ≤ w.avCntr ∧ w.avCntr < endIndex then
      partialLoop startIndex endIndex array num (i + 1) ⟨w.toWalk.call d 1, w.avCntr + 1⟩
    else if endIndex ≤ w.avCntr then return (true, w)
    else
      partialLoop startIndex endIndex array num (i + 1)
        ⟨⟨w.offset.bump d 1, w.calls⟩, w.avCntr + 1⟩

/-- One loop after another, unless the first one returns. -/
def andThen (r : Option (Bool × PartialWalk)) (next : PartialWalk → Option (Bool × PartialWalk)) :
    Option (Bool × PartialWalk) := do
  let (done, w) ← r
  if done then return (true, w) else next w

namespace SharedVariablesData

variable (svd : SharedVariablesData)

/-- The array of a relaxed variable by its bit. -/
def relaxedArray (bits : List Bool) (d : VarDomain) (cntr : Nat) : Option VarDomain :=
  bits[cntr]?.map (relaxTo d)

/-- `write_partial_core` -/
def writePartialCore (family : ViewFamily) (startIndex endIndex : Nat) (num : Counts)
    (w : PartialWalk) : Option (Bool × PartialWalk) :=
  let loop := partialLoop startIndex endIndex
  let div := match family with
    | .relaxed => relaxedArray svd.allRelaxedDiscreteInt .div
    | .mixed => fun _ => some .div
  let drv := match family with
    | .relaxed => relaxedArray svd.allRelaxedDiscreteReal .drv
    | .mixed => fun _ => some .drv
  andThen (andThen (andThen (loop (fun _ => some .cv) (num .cv) 0 w) (loop div (num .div) 0))
    (loop (fun _ => some .dsv) (num .dsv) 0)) (loop drv (num .drv) 0)

/-- The calls of `write_tabular_partial` and `write_tabular_partial_labels` -/
def partialCalls (family : ViewFamily) (startIndex numItems : Nat) : Option (List Call) := do
  let endIndex := startIndex + numItems
  let core := fun g => svd.writePartialCore family startIndex endIndex (svd.variablesCompsTotals g)
  let (_, w) ← andThen (andThen (andThen (core .design ⟨⟨fun _ => 0, []⟩, 0⟩)
    (core .aleatoryUncertain)) (core .epistemicUncertain)) (core .state)
  return w.calls

end SharedVariablesData

/-! ## The entries of a list of slots -/

/-- The offsets behind the entries of some slots. -/
def Counts.after (offset : Counts) (ds : List VarDomain) : Counts := fun e => offset e + ds.count e

/-- The entries of slots, numbered from the offsets. -/
def number (offset : Counts) : List VarDomain → List VarRef
  | [] => []
  | d :: ds => (d, offset d) :: number (offset.bump d 1) ds

variable {offset : Counts} {d e : VarDomain} {ds ds' : List VarDomain} {n : Nat}

theorem Counts.bump_apply : offset.bump d n e = if e = d then offset e + n else offset e := rfl

theorem Counts.after_nil : offset.after [] = offset := by
  funext e
  simp [after]

theorem Counts.after_cons : offset.after (d :: ds) = (offset.bump d 1).after ds := by
  funext e
  by_cases he : e = d
  · subst he
    simp [after, bump_apply]
    omega
  · simp [after, bump_apply, he, Ne.symm he]

theorem Counts.after_append : offset.after (ds ++ ds') = (offset.after ds).after ds' := by
  funext e
  simp [after, Nat.add_assoc]

theorem Counts.after_replicate : offset.after (List.replicate n d) = offset.bump d n := by
  funext e
  by_cases he : e = d
  · simp [after, bump_apply, he]
  · simp [after, bump_apply, he, List.count_replicate, Ne.symm he]

theorem number_append :
    number offset (ds ++ ds') = number offset ds ++ number (offset.after ds) ds' := by
  induction ds generalizing offset with
  | nil => rw [Counts.after_nil]; rfl
  | cons d ds ih => rw [List.cons_append, number, number, ih, Counts.after_cons, List.cons_append]

theorem number_replicate :
    number offset (List.replicate n d) = (List.range' (offset d) n).map (d, ·) := by
  induction n generalizing offset with
  | zero => rfl
  | succ n ih =>
    rw [List.replicate_succ, number, ih, List.range'_succ, List.map_cons, Counts.bump_apply,
      if_pos rfl]

@[simp] theorem map_fst_number : (number offset ds).map Prod.fst = ds := by
  induction ds generalizing offset with
  | nil => rfl
  | cons d ds ih => rw [number, List.map_cons, ih]

@[simp] theorem length_number : (number offset ds).length = ds.length := by
  rw [← List.length_map Prod.fst, map_fst_number]

theorem number_injective : Function.Injective (number offset) := by
  intro ds ds' h
  have hfst := congrArg (List.map Prod.fst) h
  rwa [map_fst_number, map_fst_number] at hfst

/-- The entries are those between the offsets and the offsets behind. -/
theorem mem_number {i : Nat} : (d, i) ∈ number offset ds ↔ offset d ≤ i ∧ i < offset.after ds d := by
  induction ds generalizing offset with
  | nil =>
    simp [number, Counts.after]
  | cons e ds ih =>
    rw [number, List.mem_cons, ih, Counts.after_cons, Prod.mk.injEq]
    have hle : offset.bump e 1 d ≤ (offset.bump e 1).after ds d := Nat.le_add_right _ _
    by_cases hd : d = e
    · subst hd
      simp only [Counts.bump_apply, if_pos, true_and] at hle ⊢
      omega
    · simp only [Counts.bump_apply, hd, if_false, false_and, false_or] at hle ⊢

theorem nodup_number : (number offset ds).Nodup := by
  induction ds generalizing offset with
  | nil => exact List.nodup_nil
  | cons d ds ih =>
    refine List.nodup_cons.mpr ⟨?_, ih⟩
    rw [mem_number, Counts.bump_apply, if_pos rfl]
    omega

/-- The entries of all calls. -/
def callRefs (calls : List Call) : List VarRef := calls.flatMap Call.refs

/-- The calls of `w'` behind those of `w` are about the entries of the slots `ds`. -/
structure Walk.Follows (w : Walk) (ds : List VarDomain) (w' : Walk) : Prop where
  refs : callRefs w'.calls = callRefs w.calls ++ number w.offset ds
  offset : w'.offset = w.offset.after ds
  bounded : ∀ c ∈ w'.calls, c ∈ w.calls ∨ c.startIndex + c.numItems ≤ w'.offset c.array

namespace Walk.Follows

variable {w w' w'' : Walk}

theorem refl : w.Follows [] w where
  refs := (List.append_nil _).symm
  offset := Counts.after_nil.symm
  bounded _ hc := .inl hc

theorem trans (h : w.Follows ds w') (h' : w'.Follows ds' w'') : w.Follows (ds ++ ds') w'' where
  refs := by rw [h'.refs, h.refs, h.offset, number_append, List.append_assoc]
  offset := by rw [h'.offset, h.offset, Counts.after_append]
  bounded c hc := by
    rcases h'.bounded c hc with hc | hc
    · refine (h.bounded c hc).imp_right fun hle => hle.trans ?_
      rw [h'.offset]
      exact Nat.le_add_right _ _
    · exact .inr hc

theorem call : w.Follows (List.replicate n d) (w.call d n) where
  refs := by
    rw [number_replicate, Walk.call, callRefs, List.flatMap_append, List.flatMap_singleton]
    rfl
  offset := Counts.after_replicate.symm
  bounded c hc := by
    rcases List.mem_append.mp hc with hc | hc
    · exact .inl hc
    · rw [List.mem_singleton.mp hc]
      right
      simp [Walk.call, Counts.bump_apply]

end Walk.Follows

end Dakota
