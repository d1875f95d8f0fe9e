import Dakota.Lib.Window
import Dakota.Variables.TabularCalls

/-!
# The entries of reads and writes

The slots that the calls of `read_core`, `write_core` and `write_partial_core` are about.

* `relaxedGroups_follows`, `mixedGroups_follows`: for all variables or those of a view. The bits that
  are read start at the counters, which are 0 for every view.
* `partialCalls_spec`: for a range of the variables. The bits that are read start at 0 for every
  group (`partialSlots`).
-/

namespace Dakota

namespace SharedVariablesData

variable {svd : SharedVariablesData} {family : ViewFamily}

/-- The arrays of numbers of variables whose bits start at `ardiCntr` and `ardrCntr`. -/
def numSlots (svd : SharedVariablesData) (num : Counts) (ardiCntr ardrCntr : Nat) :
    List VarDomain :=
  List.replicate (num .cv) .cv ++
    (relaxBits svd.allRelaxedDiscreteInt ardiCntr (num .div)).map (relaxTo .div) ++
    List.replicate (num .dsv) .dsv ++
    (relaxBits svd.allRelaxedDiscreteReal ardrCntr (num .drv)).map (relaxTo .drv)

/-- The arrays of numbers of variables that are not relaxed. -/
def mixedSlots (num : Counts) : List VarDomain :=
  List.replicate (num .cv) .cv ++ List.replicate (num .div) .div ++
    List.replicate (num .dsv) .dsv ++ List.replicate (num .drv) .drv

theorem relaxBits_succ (bits : List Bool) (offset n : Nat) : relaxBits bits offset (n + 1) =
    bits.getD offset false :: relaxBits bits (offset + 1) n := by
  rw [relaxBits, List.range'_succ, List.map_cons, relaxBits]

/-! ## All the variables, or those of a view -/

theorem relaxedLoop_follows {bits : List Bool} (d : VarDomain) {num cntr : Nat} (w : Walk)
    (hlen : num = 0 ∨ cntr + num ≤ bits.length) : ∃ w', relaxedLoop bits d num cntr w = some w' ∧
      w.Follows ((relaxBits bits cntr num).map (relaxTo d)) w' := by
  induction num generalizing cntr w with
  | zero => exact ⟨w, rfl, .refl⟩
  | succ num ih =>
    have hcntr : cntr < bits.length := by omega
    have hrest : num = 0 ∨ cntr + 1 + num ≤ bits.length := by omega
    obtain ⟨w', hloop, hfollows⟩ := ih (w.call (relaxTo d bits[cntr]) 1) hrest
    refine ⟨w', ?_, ?_⟩
    · rw [relaxedLoop, List.getElem?_eq_getElem hcntr]
      exact hloop
    · rw [relaxBits_succ, List.getD_eq_getElem _ _ hcntr, List.map_cons]
      exact Walk.Follows.trans (.call (n := 1)) hfollows

theorem relaxedLoop_isSome {bits : List Bool} {d : VarDomain} {num cntr : Nat} {w : Walk}
    (h : (relaxedLoop bits d num cntr w).isSome) : num = 0 ∨ cntr + num ≤ bits.length := by
  induction num generalizing cntr w with
  | zero => exact .inl rfl
  | succ num ih =>
    rw [relaxedLoop, Option.bind_eq_bind, Option.isSome_bind] at h
    cases hb : bits[cntr]? with
    | none => simp [hb] at h
    | some b =>
      rw [hb] at h
      have hlt := (List.getElem?_eq_some_iff.mp hb).1
      have := ih h
      omega

/-- The numbers of variables in some groups. -/
def sumOf (vcTotals : VarGroup → Counts) (groups : List VarGroup) : Counts :=
  fun d => (groups.map fun g => vcTotals g d).sum

theorem relaxedGroup_follows {num : Counts} {ardiCntr ardrCntr : Nat} (w : Walk)
    (hi : num .div = 0 ∨ ardiCntr + num .div ≤ svd.allRelaxedDiscreteInt.length)
    (hr : num .drv = 0 ∨ ardrCntr + num .drv ≤ svd.allRelaxedDiscreteReal.length) :
    ∃ w', svd.relaxedGroup num ardiCntr ardrCntr w = some w' ∧
      w.Follows (svd.numSlots num ardiCntr ardrCntr) w' := by
  obtain ⟨w₁, hloop₁, hfollows₁⟩ := relaxedLoop_follows .div (w.call .cv (num .cv)) hi
  obtain ⟨w₂, hloop₂, hfollows₂⟩ := relaxedLoop_follows .drv (w₁.call .dsv (num .dsv)) hr
  refine ⟨w₂, ?_, ((Walk.Follows.trans .call hfollows₁).trans .call).trans hfollows₂⟩
  simp only [relaxedGroup, hloop₁, hloop₂, Option.bind_eq_bind, Option.bind_some]

/-- The arrays of groups, with the counters running on. -/
def slotsOf (svd : SharedVariablesData) (vcTotals : VarGroup → Counts) (ardiCntr ardrCntr : Nat) :
    List VarGroup → List VarDomain
  | [] => []
  | g :: gs => svd.numSlots (vcTotals g) ardiCntr ardrCntr ++
      slotsOf svd vcTotals (ardiCntr + vcTotals g .div) (ardrCntr + vcTotals g .drv) gs

theorem relaxedGroups_follows {vcTotals : VarGroup → Counts} {groups : List VarGroup}
    {ardiCntr ardrCntr : Nat} (w : Walk)
    (hi : sumOf vcTotals groups .div = 0 ∨
      ardiCntr + sumOf vcTotals groups .div ≤ svd.allRelaxedDiscreteInt.length)
    (hr : sumOf vcTotals groups .drv = 0 ∨
      ardrCntr + sumOf vcTotals groups .drv ≤ svd.allRelaxedDiscreteReal.length) :
    ∃ w', svd.relaxedGroups vcTotals groups ardiCntr ardrCntr w = some w' ∧
      w.Follows (svd.slotsOf vcTotals ardiCntr ardrCntr groups) w' := by
  induction groups generalizing ardiCntr ardrCntr w with
  | nil => exact ⟨w, rfl, .refl⟩
  | cons g groups ih =>
    simp only [sumOf, List.map_cons, List.sum_cons] at hi hr
    have hi₁ : vcTotals g .div = 0 ∨
        ardiCntr + vcTotals g .div ≤ svd.allRelaxedDiscreteInt.length := by omega
    have hr₁ : vcTotals g .drv = 0 ∨
        ardrCntr + vcTotals g .drv ≤ svd.allRelaxedDiscreteReal.length := by omega
    have hi₂ : sumOf vcTotals groups .div = 0 ∨ ardiCntr + vcTotals g .div +
        sumOf vcTotals groups .div ≤ svd.allRelaxedDiscreteInt.length := by
      unfold sumOf
      omega
    have hr₂ : sumOf vcTotals groups .drv = 0 ∨ ardrCntr + vcTotals g .drv +
        sumOf vcTotals groups .drv ≤ svd.allRelaxedDiscreteReal.length := by
      unfold sumOf
      omega
    obtain ⟨w₁, hgroup, hfollows₁⟩ := relaxedGroup_follows w hi₁ hr₁
    obtain ⟨w₂, hgroups, hfollows₂⟩ := ih w₁ hi₂ hr₂
    refine ⟨w₂, ?_, hfollows₁.trans hfollows₂⟩
    simp only [relaxedGroups, hgroup, hgroups, Option.bind_eq_bind, Option.bind_some]

theorem mixedGroups_follows {vcTotals : VarGroup → Counts} {groups : List VarGroup} {w : Walk} :
    w.Follows (groups.flatMap fun g => mixedSlots (vcTotals g)) (mixedGroups vcTotals groups w) := by
  induction groups generalizing w with
  | nil => exact .refl
  | cons g groups ih =>
    rw [List.flatMap_cons]
    exact Walk.Follows.trans (((Walk.Follows.call.trans .call).trans .call).trans .call) ih

/-- Every discrete variable has a bit. -/
def BitsSized (svd : SharedVariablesData) : Prop :=
  svd.allRelaxedDiscreteInt.length = svd.sumTotals allGroups .div ∧
    svd.allRelaxedDiscreteReal.length = svd.sumTotals allGroups .drv

instance : Decidable svd.BitsSized := inferInstanceAs (Decidable (_ ∧ _))

/-- The loops over all variables read a bit for each discrete variable. -/
theorem bitsSized_of_relaxedGroups {w : Walk}
    (h : (svd.relaxedGroups svd.variablesCompsTotals allGroups 0 0 w).isSome) : svd.BitsSized := by
  have hgroup {num : Counts} {i r : Nat} {w w' : Walk}
      (h : svd.relaxedGroup num i r w = some w') :
      (num .div = 0 ∨ i + num .div ≤ svd.allRelaxedDiscreteInt.length) ∧
        (num .drv = 0 ∨ r + num .drv ≤ svd.allRelaxedDiscreteReal.length) := by
    simp only [relaxedGroup, Option.bind_eq_bind, Option.bind_eq_some_iff] at h
    obtain ⟨w₁, hi, hr⟩ := h
    exact ⟨relaxedLoop_isSome (Option.isSome_of_eq_some hi),
      relaxedLoop_isSome (Option.isSome_of_eq_some hr)⟩
  obtain ⟨w', hw⟩ := Option.isSome_iff_exists.mp h
  simp only [allGroups, relaxedGroups, Option.bind_eq_bind, Option.bind_eq_some_iff] at hw
  obtain ⟨w₁, h₁, w₂, h₂, w₃, h₃, w₄, h₄, -⟩ := hw
  obtain ⟨hi₁, hr₁⟩ := hgroup h₁
  obtain ⟨hi₂, hr₂⟩ := hgroup h₂
  obtain ⟨hi₃, hr₃⟩ := hgroup h₃
  obtain ⟨hi₄, hr₄⟩ := hgroup h₄
  have hempty {bits : List Bool} (h : bits = []) : bits.length = 0 := List.length_eq_zero_iff.mpr h
  have hint := svd.int_length.imp_left hempty
  have hreal := svd.real_length.imp_left hempty
  unfold BitsSized
  simp only [allGroups, sumTotals_cons, sumTotals_nil]
  omega

/-! ## A range of the variables -/

/-- What the loops of `write_partial_core` make of the slots `ds`: calls for the entries in the
range, up to a return behind the range or to the end of the slots. -/
structure Ranges (lo hi : Nat) (w : PartialWalk) (ds : List VarDomain) (r : Bool × PartialWalk) :
    Prop where
  refs : callRefs r.2.calls = callRefs w.calls ++ window lo hi w.avCntr (number w.offset ds)
  bounded : ∀ c ∈ r.2.calls, c ∈ w.calls ∨
    c.startIndex + c.numItems ≤ w.offset.after ds c.array
  done : r.1 = true → hi ≤ w.avCntr + ds.length
  next : r.1 = false → r.2.offset = w.offset.after ds ∧ r.2.avCntr = w.avCntr + ds.length

namespace Ranges

variable {lo hi : Nat} {w w' : PartialWalk} {ds ds' : List VarDomain} {r r' : Bool × PartialWalk}

theorem nil : Ranges lo hi w [] (false, w) where
  refs := (List.append_nil _).symm
  bounded _ hc := .inl hc
  done h := nomatch h
  next _ := ⟨Counts.after_nil.symm, rfl⟩

/-- A loop that has returned is behind the range. -/
theorem append_done (h : Ranges lo hi w ds (true, w')) : Ranges lo hi w (ds ++ ds') (true, w') where
  refs := by
    rw [h.refs, number_append, window_append, length_number,
      window_eq_nil (show hi ≤ w.avCntr + ds.length from h.done rfl), List.append_nil]
  bounded c hc := by
    refine (h.bounded c hc).imp_right fun hle => hle.trans ?_
    rw [Counts.after_append]
    exact Nat.le_add_right _ _
  done _ := by
    have := h.done rfl
    rw [List.length_append]
    omega
  next h := nomatch h

theorem append (h : Ranges lo hi w ds (false, w')) (h' : Ranges lo hi w' ds' r) :
    Ranges lo hi w (ds ++ ds') r := by
  obtain ⟨hoffset, hcntr⟩ := h.next rfl
  have hrefs := h'.refs
  have hbounded := h'.bounded
  have hdone := h'.done
  have hnext := h'.next
  rw [hoffset, hcntr] at hrefs hnext
  rw [hoffset] at hbounded
  rw [hcntr] at hdone
  refine ⟨?_, fun c hc => ?_, fun hr => ?_, fun hr => ?_⟩
  · rw [hrefs, h.refs, number_append, window_append, length_number, List.append_assoc]
  · rw [Counts.after_append]
    rcases hbounded c hc with hc | hc
    · refine (h.bounded c hc).imp_right fun hle => hle.trans ?_
      exact Nat.le_add_right _ _
    · exact .inr hc
  · rw [List.length_append, ← Nat.add_assoc]
    exact hdone hr
  · rw [Counts.after_append, List.length_append, ← Nat.add_assoc]
    exact hnext hr

/-- One item in the range. -/
theorem write {d : VarDomain} (hlo : lo ≤ w.avCntr) (hhi : w.avCntr < hi) :
    Ranges lo hi w [d] (false, ⟨w.toWalk.call d 1, w.avCntr + 1⟩) where
  refs := by
    have hcall := (Walk.Follows.call (w := w.toWalk) (d := d) (n := 1)).refs
    rw [number, number, window, if_pos ⟨hlo, hhi⟩, window]
    exact hcall
  bounded c hc := (Walk.Follows.call.bounded c hc).imp_right fun hle => by
    rw [← List.replicate_one, Counts.after_replicate]
    exact hle
  done h := nomatch h
  next _ := ⟨by rw [← List.replicate_one, Counts.after_replicate]; rfl, rfl⟩

/-- One item before the range. -/
theorem pass {d : VarDomain} (hlo : ¬(lo ≤ w.avCntr ∧ w.avCntr < hi)) :
    Ranges lo hi w [d] (false, ⟨⟨w.offset.bump d 1, w.calls⟩, w.avCntr + 1⟩) where
  refs := by
    rw [number, number, window, if_neg hlo, window, List.append_nil]
  bounded _ hc := .inl hc
  done h := nomatch h
  next _ := ⟨by rw [← List.replicate_one, Counts.after_replicate], rfl⟩

/-- An item behind the range. -/
theorem stop (hhi : hi ≤ w.avCntr) : Ranges lo hi w ds (true, w) where
  refs := by rw [window_eq_nil hhi, List.append_nil]
  bounded _ hc := .inl hc
  done _ := hhi.trans (Nat.le_add_right _ _)
  next h := nomatch h

end Ranges

variable {lo hi : Nat}

theorem partialLoop_ranges {array : Nat → Option VarDomain} (ds : List VarDomain) {i : Nat}
    (w : PartialWalk) (harray : ∀ k < ds.length, array (i + k) = ds[k]?) :
    ∃ r, partialLoop lo hi array ds.length i w = some r ∧ Ranges lo hi w ds r := by
  induction ds generalizing i w with
  | nil => exact ⟨_, rfl, .nil⟩
  | cons d ds ih =>
    have hd : array i = some d := by simpa using harray 0 (by simp)
    have hds : ∀ k < ds.length, array (i + 1 + k) = ds[k]? := fun k hk => by
      have := harray (k + 1) (by simpa using hk)
      rwa [List.getElem?_cons_succ, Nat.add_comm k 1, ← Nat.add_assoc] at this
    simp only [List.length_cons, partialLoop, hd, Option.bind_eq_bind, Option.bind_some]
    split
    · rename_i hin
      obtain ⟨r, hloop, hr⟩ := ih ⟨w.toWalk.call d 1, w.avCntr + 1⟩ hds
      exact ⟨r, hloop, Ranges.append (Ranges.write hin.1 hin.2) hr⟩
    · rename_i hin
      split
      · rename_i hout
        exact ⟨_, rfl, .stop hout⟩
      · obtain ⟨r, hloop, hr⟩ := ih ⟨⟨w.offset.bump d 1, w.calls⟩, w.avCntr + 1⟩ hds
        exact ⟨r, hloop, Ranges.append (Ranges.pass hin) hr⟩

theorem andThen_ranges {w : PartialWalk} {ds ds' : List VarDomain}
    {res : Option (Bool × PartialWalk)} {next : PartialWalk → Option (Bool × PartialWalk)}
    (hres : ∃ r, res = some r ∧ Ranges lo hi w ds r)
    (hnext : ∀ w', ∃ r, next w' = some r ∧ Ranges lo hi w' ds' r) :
    ∃ r, andThen res next = some r ∧ Ranges lo hi w (ds ++ ds') r := by
  obtain ⟨⟨done, w'⟩, rfl, hr⟩ := hres
  cases done with
  | true => exact ⟨_, rfl, hr.append_done⟩
  | false =>
    obtain ⟨r, heq, hr'⟩ := hnext w'
    exact ⟨r, heq, hr.append hr'⟩

/-- A loop over variables of one array. -/
theorem partialLoop_replicate {d : VarDomain} {num : Nat} (w : PartialWalk) :
    ∃ r, partialLoop lo hi (fun _ => some d) num 0 w = some r ∧
      Ranges lo hi w (List.replicate num d) r := by
  have hloop : ∃ r, partialLoop lo hi (fun _ => some d) (List.replicate num d).length 0 w = some r ∧
      Ranges lo hi w (List.replicate num d) r := by
    apply partialLoop_ranges
    intro k hk
    rw [List.length_replicate] at hk
    rw [List.getElem?_replicate, if_pos hk]
  rwa [List.length_replicate] at hloop

/-- A loop over relaxed variables, whose bits start at 0. -/
theorem partialLoop_relaxed {bits : List Bool} {d : VarDomain} {num : Nat} (w : PartialWalk)
    (hlen : num ≤ bits.length) :
    ∃ r, partialLoop lo hi (relaxedArray bits d) num 0 w = some r ∧
      Ranges lo hi w ((relaxBits bits 0 num).map (relaxTo d)) r := by
  have hnum : ((relaxBits bits 0 num).map (relaxTo d)).length = num := by simp [relaxBits]
  have harray : ∀ k < ((relaxBits bits 0 num).map (relaxTo d)).length,
      relaxedArray bits d (0 + k) = ((relaxBits bits 0 num).map (relaxTo d))[k]? := by
    intro k hk
    rw [hnum] at hk
    have hbits : k < bits.length := by omega
    simp [relaxedArray, relaxBits, hk, hbits]
  obtain ⟨r, hloop, hr⟩ := partialLoop_ranges _ w harray
  rw [hnum] at hloop
  exact ⟨r, hloop, hr⟩

/-- The slots of a group in `write_partial_core`. -/
def partialSlots (svd : SharedVariablesData) (family : ViewFamily) (num : Counts) :
    List VarDomain :=
  match family with
  | .relaxed => svd.numSlots num 0 0
  | .mixed => mixedSlots num

theorem writePartialCore_ranges {num : Counts} (w : PartialWalk)
    (hi' : family = .relaxed → num .div ≤ svd.allRelaxedDiscreteInt.length)
    (hr' : family = .relaxed → num .drv ≤ svd.allRelaxedDiscreteReal.length) :
    ∃ r, svd.writePartialCore family lo hi num w = some r ∧
      Ranges lo hi w (svd.partialSlots family num) r := by
  cases family with
  | relaxed =>
    exact andThen_ranges (andThen_ranges (andThen_ranges (partialLoop_replicate w)
      fun w => partialLoop_relaxed w (hi' rfl)) partialLoop_replicate)
      fun w => partialLoop_relaxed w (hr' rfl)
  | mixed =>
    exact andThen_ranges (andThen_ranges (andThen_ranges (partialLoop_replicate w)
      partialLoop_replicate) partialLoop_replicate) partialLoop_replicate

/-- All the slots in `write_partial_core`. -/
def allPartialSlots (svd : SharedVariablesData) (family : ViewFamily) : List VarDomain :=
  allGroups.flatMap fun g => svd.partialSlots family (svd.variablesCompsTotals g)

/-- The calls for a range are about the entries in the range. -/
theorem partialCalls_spec (hsized : family = .relaxed → svd.BitsSized) (start num : Nat) :
    ∃ calls, svd.partialCalls family start num = some calls ∧
      callRefs calls = window start (start + num) 0 (number (fun _ => 0)
        (svd.allPartialSlots family)) ∧
      ∀ c ∈ calls, c.startIndex + c.numItems ≤ (svd.allPartialSlots family).count c.array := by
  have hcore (g : VarGroup) (w : PartialWalk) :
      ∃ r, svd.writePartialCore family start (start + num) (svd.variablesCompsTotals g) w = some r ∧
        Ranges start (start + num) w (svd.partialSlots family (svd.variablesCompsTotals g)) r := by
    have hle (d : VarDomain) : svd.variablesCompsTotals g d ≤ svd.sumTotals allGroups d := by
      cases g <;> simp [allGroups] <;> omega
    refine writePartialCore_ranges w (fun hf => ?_) (fun hf => ?_)
    · rw [(hsized hf).1]
      exact hle .div
    · rw [(hsized hf).2]
      exact hle .drv
  obtain ⟨r, heq, hr⟩ := andThen_ranges (andThen_ranges (andThen_ranges
    (hcore .design ⟨⟨fun _ => 0, []⟩, 0⟩) (hcore .aleatoryUncertain)) (hcore .epistemicUncertain))
    (hcore .state)
  have hslots : svd.allPartialSlots family =
      svd.partialSlots family (svd.variablesCompsTotals .design) ++
        svd.partialSlots family (svd.variablesCompsTotals .aleatoryUncertain) ++
        svd.partialSlots family (svd.variablesCompsTotals .epistemicUncertain) ++
        svd.partialSlots family (svd.variablesCompsTotals .state) := by
    simp [allPartialSlots, allGroups]
  rw [← hslots] at hr
  refine ⟨r.2.calls, ?_, hr.refs, fun c hc => ?_⟩
  · simp only [partialCalls, heq, Option.bind_eq_bind, Option.bind_some]
    rfl
  · rcases hr.bounded c hc with hc | hc
    · cases hc
    · rwa [Counts.after, Nat.zero_add] at hc

end SharedVariablesData

end Dakota
