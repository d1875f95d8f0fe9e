import Dakota.Variables.Hash
import Dakota.Variables.TabularRefs

/-!
# Tabular writes

`write_tabular`, `write_tabular_labels` and their partial forms for `RelaxedVariables` and
`MixedVariables`, with `TabularWriter` and `LabelsWriter` (`src/src/DakotaVariables.hpp`,
`write_data_partial_tabular` in `src/src/dakota_data_io.hpp`).

* A writer appends the texts of a range of an array, and aborts behind its end. The texts are those
  of the values or the labels.
* `writeTabularPartial_iff`: the partial writes between split points give what the full write gives
  if and only if, for relaxed variables, every group has the bits that the first variables have, and,
  for mixed variables, no variable is relaxed.
-/

namespace Dakota

/-- What a field of a table is printed as. -/
abbrev Text := List Char

structure NumberPrinter (K : Type) where
  real : K → Text
  int : Int → Text

/-- The texts of the values in the arrays. -/
def VariablesRep.texts {K : Type} (fmt : NumberPrinter K) (rep : VariablesRep K) :
    VarDomain → List Text
  | .cv => rep.allContinuousVars.map fmt.real
  | .div => rep.allDiscreteIntVars.map fmt.int
  | .dsv => rep.allDiscreteStringVars.map String.toList
  | .drv => rep.allDiscreteRealVars.map fmt.real

/-- `write_data_partial_tabular` -/
def writeDataPartialTabular (array : VarDomain → List Text) (fields : List Text) (c : Call) :
    Option (List Text) :=
  if c.startIndex + c.numItems ≤ (array c.array).length then
    some (fields ++ ((array c.array).drop c.startIndex).take c.numItems)
  else none

namespace SharedVariablesData

variable (svd : SharedVariablesData) (family : ViewFamily) (array : VarDomain → List Text)

/-- `write_core` with a writer for the texts. -/
def writeCore (view : View × View) (part : VarsPart) : Option (List Text) := do
  (← svd.coreCalls family view part).foldlM (writeDataPartialTabular array) []

/-- `write_tabular` -/
def writeTabular {K : Type} (fmt : NumberPrinter K) (rep : VariablesRep K) (part : VarsPart) :
    Option (List Text) :=
  svd.writeCore family (rep.texts fmt) rep.view part

/-- `write_tabular_labels` -/
def writeTabularLabels (labels : VarDomain → List String) (view : View × View) (part : VarsPart) :
    Option (List Text) :=
  svd.writeCore family (fun d => (labels d).map String.toList) view part

/-- `write_tabular_partial` and `write_tabular_partial_labels`, with a writer for the texts. -/
def writePartial (startIndex numItems : Nat) : Option (List Text) := do
  (← svd.partialCalls family startIndex numItems).foldlM (writeDataPartialTabular array) []

/-- `write_tabular_partial` -/
def writeTabularPartial {K : Type} (fmt : NumberPrinter K) (rep : VariablesRep K)
    (startIndex numItems : Nat) : Option (List Text) :=
  svd.writePartial family (rep.texts fmt) startIndex numItems

/-- `write_tabular_partial_labels` -/
def writeTabularPartialLabels (labels : VarDomain → List String) (startIndex numItems : Nat) :
    Option (List Text) :=
  svd.writePartial family (fun d => (labels d).map String.toList) startIndex numItems

/-- The arrays have the sizes of `all_counts`. -/
def Sized (size : Counts) : Prop := svd.allCounts = some size

/-- All the entries, in the order of the specification. -/
def allRefs : List VarRef := number (fun _ => 0) svd.slots

/-- The text of an entry. -/
def entry (r : VarRef) : Text := (array r.1).getD r.2 []

/-- The partial writes between the split points, one after the other. -/
def partialWrites (write : Nat → Nat → Option (List Text)) (splits : List Nat) :
    Option (List Text) :=
  (((0 :: splits).zip splits).mapM fun q => write q.1 (q.2 - q.1)).map List.flatten

/-- The full write gives the texts of all entries, and so do the partial writes between split points
`0 < p₁ < ... < tv`. -/
def Concatenates (write : VarsPart → Option (List Text)) (partialWrite : Nat → Nat →
    Option (List Text)) (array : VarDomain → List Text) : Prop :=
  write .allVars = some (svd.allRefs.map (entry array)) ∧
    ∀ splits : List Nat, (0 :: splits).Pairwise (· < ·) →
      (0 :: splits).getLast (List.cons_ne_nil 0 splits) = numVars (fun d => (array d).length) →
      partialWrites partialWrite splits = some (svd.allRefs.map (entry array))

/-- The values and the labels of the partial writes put together are those of the full writes. -/
structure PartialWrites {K : Type} (fmt : NumberPrinter K) : Prop where
  values : ∀ rep : VariablesRep K, svd.Sized (fun d => (rep.texts fmt d).length) →
    svd.Concatenates (svd.writeTabular family fmt rep) (svd.writeTabularPartial family fmt rep)
      (rep.texts fmt)
  labels : ∀ (labels : VarDomain → List String) (view : View × View),
    svd.Sized (fun d => (labels d).length) →
    svd.Concatenates (svd.writeTabularLabels family labels view)
      (svd.writeTabularPartialLabels family labels) fun d => (labels d).map String.toList

/-- The bits for which all variables are written. -/
def AllBits : ViewFamily → Prop
  | .relaxed => svd.BitsSized
  | .mixed => svd.RelaxedWithin .mixed

/-- The bits of a group are those of the first variables, and none is set for mixed variables. -/
def PartialBits : ViewFamily → Prop
  | .relaxed => svd.BitsSized ∧ ∀ g,
    (∀ i < svd.variablesCompsTotals g .div, svd.allRelaxedDiscreteInt.getD i false =
      svd.allRelaxedDiscreteInt.getD (svd.sumTotals (groupsBefore g) .div + i) false) ∧
    ∀ i < svd.variablesCompsTotals g .drv, svd.allRelaxedDiscreteReal.getD i false =
      svd.allRelaxedDiscreteReal.getD (svd.sumTotals (groupsBefore g) .drv + i) false
  | .mixed => svd.RelaxedWithin .mixed

variable {svd family array}

/-! ## What a writer makes of calls -/

/-- The texts of a range of an array are those of its entries. -/
theorem take_drop_eq (array : VarDomain → List Text) {c : Call} (hc : c.startIndex + c.numItems ≤ (array c.array).length) :
    ((array c.array).drop c.startIndex).take c.numItems = c.refs.map (entry array) := by
  apply List.ext_getElem
  · simp [Call.refs]
    omega
  · intro i h₁ h₂
    simp only [Call.refs, List.map_map, List.length_map, List.length_range'] at h₂
    have hi : c.startIndex + i < (array c.array).length := by omega
    simp [Call.refs, entry, hi]

theorem writeData_iff {calls : List Call} {fields fields' : List Text} :
    calls.foldlM (writeDataPartialTabular array) fields = some fields' ↔
      (∀ c ∈ calls, c.startIndex + c.numItems ≤ (array c.array).length) ∧
        fields' = fields ++ (callRefs calls).map (entry array) := by
  induction calls generalizing fields with
  | nil => simp [callRefs, eq_comm]
  | cons c calls ih =>
    rw [List.foldlM_cons, writeDataPartialTabular]
    split
    · rename_i hc
      rw [Option.bind_eq_bind, Option.bind_some, ih, take_drop_eq array hc]
      simp [callRefs, hc]
    · rename_i hc
      simp [hc]

/-- The entries of calls that a writer accepts are in the arrays. -/
theorem lt_of_mem_callRefs (size : Counts) {calls : List Call}
    (h : ∀ c ∈ calls, c.startIndex + c.numItems ≤ size c.array) {r : VarRef}
    (hr : r ∈ callRefs calls) : r.2 < size r.1 := by
  obtain ⟨c, hc, hr⟩ := List.mem_flatMap.mp hr
  obtain ⟨i, hi, rfl⟩ := List.mem_map.mp hr
  have := (List.mem_range'_1.mp hi).2
  have := h c hc
  change i < size c.array
  omega

/-! ## The slots of full and of partial writes -/

/-- The slots of a full write. -/
def fullSlots (svd : SharedVariablesData) : ViewFamily → List VarDomain
  | .relaxed => svd.slots
  | .mixed => allGroups.flatMap fun g => mixedSlots (svd.variablesCompsTotals g)

theorem slotsOf_all (ardiCntr ardrCntr : Nat) (groups : List VarGroup) :
    svd.slotsOf svd.variablesCompsTotals ardiCntr ardrCntr groups =
      svd.slotsFrom ardiCntr ardrCntr groups := by
  induction groups generalizing ardiCntr ardrCntr with
  | nil => rfl
  | cons g groups ih => rw [slotsOf, slotsFrom, ih]; rfl

/-- The calls of a full write. -/
theorem coreCalls_all (hsized : family = .relaxed → svd.BitsSized) (view : View × View) :
    ∃ calls, svd.coreCalls family view .allVars = some calls ∧
      callRefs calls = number (fun _ => 0) (svd.fullSlots family) ∧
      ∀ c ∈ calls, c.startIndex + c.numItems ≤ (svd.fullSlots family).count c.array := by
  have hfollows {w : Walk} {ds : List VarDomain} (h : Walk.Follows ⟨fun _ => 0, []⟩ ds w) :
      callRefs w.calls = number (fun _ => 0) ds ∧
        ∀ c ∈ w.calls, c.startIndex + c.numItems ≤ ds.count c.array := by
    refine ⟨h.refs, fun c hc => ?_⟩
    rcases h.bounded c hc with hc | hc
    · cases hc
    · rwa [h.offset, Counts.after, Nat.zero_add] at hc
  cases family with
  | relaxed =>
    obtain ⟨hint, hreal⟩ := hsized rfl
    have hi : sumOf svd.variablesCompsTotals allGroups .div = 0 ∨ 0 +
        sumOf svd.variablesCompsTotals allGroups .div ≤ svd.allRelaxedDiscreteInt.length :=
      .inr ((Nat.zero_add _).trans hint.symm).le
    have hr : sumOf svd.variablesCompsTotals allGroups .drv = 0 ∨ 0 +
        sumOf svd.variablesCompsTotals allGroups .drv ≤ svd.allRelaxedDiscreteReal.length :=
      .inr ((Nat.zero_add _).trans hreal.symm).le
    obtain ⟨w, hgroups, hw⟩ := relaxedGroups_follows ⟨fun _ => 0, []⟩ hi hr
    rw [slotsOf_all] at hw
    refine ⟨w.calls, ?_, hfollows hw⟩
    simp only [coreCalls, partStart, hgroups, Option.bind_eq_bind, Option.bind_some]
    rfl
  | mixed => exact ⟨_, rfl, hfollows mixedGroups_follows⟩

theorem bitsSized_of_coreCalls {view : View × View}
    (h : (svd.coreCalls .relaxed view .allVars).isSome) : svd.BitsSized := by
  obtain ⟨calls, hcalls⟩ := Option.isSome_iff_exists.mp h
  simp only [coreCalls, partStart, Option.bind_eq_bind, Option.bind_some,
    Option.bind_eq_some_iff] at hcalls
  obtain ⟨w, hw, -⟩ := hcalls
  exact bitsSized_of_relaxedGroups (Option.isSome_of_eq_some hw)

/-! ## The bits that the partial writes read -/

theorem relaxBits_eq_iff {bits : List Bool} {offset offset' n : Nat} :
    relaxBits bits offset n = relaxBits bits offset' n ↔
      ∀ i < n, bits.getD (offset + i) false = bits.getD (offset' + i) false := by
  have hget (o i : Nat) (hi : i < (relaxBits bits o n).length) :
      (relaxBits bits o n)[i] = bits.getD (o + i) false := by
    simp [relaxBits]
  have hlen (o : Nat) : (relaxBits bits o n).length = n := by simp [relaxBits]
  constructor
  · intro h i hi
    rw [← hget offset i (by rwa [hlen]), ← hget offset' i (by rwa [hlen])]
    simp only [h]
  · intro h
    apply List.ext_getElem
    · rw [hlen, hlen]
    · intro i h₁ h₂
      rw [hget, hget]
      exact h i (by rwa [hlen] at h₁)

theorem relaxTo_injective {d : VarDomain} (hd : d ≠ .cv) : Function.Injective (relaxTo d) := by
  intro b b' h
  cases b <;> cases b' <;> simp_all [relaxTo]

/-- The slots of a group for two starts of its bits. -/
theorem numSlots_eq_iff {num : Counts} {i r i' r' : Nat} :
    svd.numSlots num i r = svd.numSlots num i' r' ↔
      (∀ k < num .div, svd.allRelaxedDiscreteInt.getD (i + k) false =
        svd.allRelaxedDiscreteInt.getD (i' + k) false) ∧
      ∀ k < num .drv, svd.allRelaxedDiscreteReal.getD (r + k) false =
        svd.allRelaxedDiscreteReal.getD (r' + k) false := by
  have hlen (bits : List Bool) (d : VarDomain) (o o' n : Nat) :
      ((relaxBits bits o n).map (relaxTo d)).length =
        ((relaxBits bits o' n).map (relaxTo d)).length := by
    simp [relaxBits]
  rw [← relaxBits_eq_iff, ← relaxBits_eq_iff, numSlots, numSlots]
  constructor
  · intro h
    obtain ⟨h, hreal⟩ := List.append_inj' h (hlen ..)
    obtain ⟨h, -⟩ := List.append_inj' h rfl
    obtain ⟨-, hint⟩ := List.append_inj' h (hlen ..)
    exact ⟨List.map_injective_iff.mpr (relaxTo_injective (by decide)) hint,
      List.map_injective_iff.mpr (relaxTo_injective (by decide)) hreal⟩
  · rintro ⟨hint, hreal⟩
    rw [hint, hreal]

theorem flatMap_eq_iff {α β : Type} {f h : α → List β} (hlen : ∀ a, (f a).length = (h a).length)
    (l : List α) : l.flatMap f = l.flatMap h ↔ ∀ a ∈ l, f a = h a := by
  induction l with
  | nil => simp
  | cons a l ih =>
    rw [List.flatMap_cons, List.flatMap_cons, List.forall_mem_cons, ← ih]
    constructor
    · exact fun heq => List.append_inj heq (hlen a)
    · rintro ⟨ha, hl⟩
      rw [ha, hl]

theorem slots_eq_flatMap : svd.slots = allGroups.flatMap fun g =>
    svd.numSlots (svd.variablesCompsTotals g) (svd.sumTotals (groupsBefore g) .div)
      (svd.sumTotals (groupsBefore g) .drv) := by
  simp only [slots, slotsAfter, allGroups, slotsFrom, groupsBefore, List.flatMap_cons,
    List.flatMap_nil, sumTotals_cons, sumTotals_nil, Nat.add_zero, Nat.zero_add,
    ← Nat.add_assoc]
  rfl

/-- Partial writes of relaxed variables have the slots of the full write if the bits of each group
are the first ones. -/
theorem allPartialSlots_relaxed : svd.allPartialSlots .relaxed = svd.slots ↔
    ∀ g, (∀ i < svd.variablesCompsTotals g .div, svd.allRelaxedDiscreteInt.getD i false =
      svd.allRelaxedDiscreteInt.getD (svd.sumTotals (groupsBefore g) .div + i) false) ∧
    ∀ i < svd.variablesCompsTotals g .drv, svd.allRelaxedDiscreteReal.getD i false =
      svd.allRelaxedDiscreteReal.getD (svd.sumTotals (groupsBefore g) .drv + i) false := by
  have hmem (g : VarGroup) : g ∈ allGroups := by cases g <;> decide
  rw [slots_eq_flatMap, allPartialSlots, flatMap_eq_iff fun g => by
    simp [partialSlots, numSlots, relaxBits]]
  simp only [hmem, true_imp_iff, partialSlots, numSlots_eq_iff, Nat.zero_add]

/-- Without relaxed variables the slots are the totals of the groups. -/
theorem numSlots_of_not_relaxed (h : svd.RelaxedWithin .mixed) (num : Counts) (i r : Nat) :
    svd.numSlots num i r = mixedSlots num := by
  have hbits {bits : List Bool} (d : VarDomain) (o n : Nat)
      (hb : ∀ i, bits.getD i false = false) :
      (relaxBits bits o n).map (relaxTo d) = List.replicate n d := by
    rw [relaxBits, List.map_map, List.map_congr_left (g := fun _ => d), List.map_const',
      List.length_range']
    intro i _
    rw [Function.comp, hb, relaxTo, if_neg Bool.false_ne_true]
  rw [numSlots, hbits _ _ _ h.1, hbits _ _ _ h.2, mixedSlots]

theorem slots_of_not_relaxed (h : svd.RelaxedWithin .mixed) :
    svd.slots = svd.fullSlots .mixed := by
  rw [slots_eq_flatMap, fullSlots]
  apply List.flatMap_congr
  intro g _
  exact numSlots_of_not_relaxed h _ _ _

theorem length_eq_numVars (ds : List VarDomain) : ds.length = numVars fun d => ds.count d := by
  induction ds with
  | nil => rfl
  | cons d ds ih =>
    rw [List.length_cons, ih]
    cases d <;> simp [numVars] <;> omega

theorem mapM_eq_some {α β : Type} {f : α → Option β} {g : α → β} {l : List α}
    (h : ∀ a ∈ l, f a = some (g a)) : l.mapM f = some (l.map g) := by
  induction l with
  | nil => rfl
  | cons a l ih =>
    rw [List.forall_mem_cons] at h
    rw [List.mapM_cons, h.1, ih h.2]
    rfl

theorem Sized.length_eq (h : svd.Sized fun d => (array d).length) (d : VarDomain) :
    (array d).length = svd.slots.count d := by
  have hcounts := Option.some.inj (allCounts_eq.symm.trans h)
  exact (congrFun hcounts d).symm

/-- The slots of the partial writes are all the slots. -/
theorem PartialBits.slots_eq (h : svd.PartialBits family) :
    svd.allPartialSlots family = svd.slots := by
  cases family with
  | relaxed => exact allPartialSlots_relaxed.mpr h.2
  | mixed => exact (slots_of_not_relaxed h).symm

theorem PartialBits.allBits (h : svd.PartialBits family) : svd.AllBits family := by
  cases family with
  | relaxed => exact h.1
  | mixed => exact h

theorem AllBits.sized (h : svd.AllBits family) (hf : family = .relaxed) : svd.BitsSized := by
  subst hf
  exact h

/-- Calls for entries of the arrays write the texts of the entries. -/
theorem writeData_eq (hsize : svd.Sized fun d => (array d).length) {calls : List Call}
    {refs : List VarRef} (hrefs : callRefs calls = refs)
    (hle : ∀ c ∈ calls, c.startIndex + c.numItems ≤ svd.slots.count c.array) :
    calls.foldlM (writeDataPartialTabular array) [] = some (refs.map (entry array)) := by
  rw [writeData_iff, hrefs]
  exact ⟨fun c hc => (hle c hc).trans_eq (hsize.length_eq _).symm, rfl⟩

theorem writeCore_all (h : svd.AllBits family) (hsize : svd.Sized fun d => (array d).length)
    (view : View × View) :
    svd.writeCore family array view .allVars = some (svd.allRefs.map (entry array)) := by
  have hslots : svd.fullSlots family = svd.slots := by
    cases family with
    | relaxed => rfl
    | mixed => exact (slots_of_not_relaxed h).symm
  obtain ⟨calls, hcalls, hrefs, hle⟩ := coreCalls_all h.sized view
  rw [hslots] at hrefs hle
  rw [writeCore, hcalls]
  exact writeData_eq hsize hrefs hle

theorem concatenates_of_bits (h : svd.PartialBits family)
    (hsize : svd.Sized fun d => (array d).length) (view : View × View) :
    svd.Concatenates (svd.writeCore family array view) (svd.writePartial family array) array := by
  have hslots := h.slots_eq
  refine ⟨writeCore_all h.allBits hsize view, fun splits hsplits hlast => ?_⟩
  have hpairs : ∀ q ∈ (0 :: splits).zip splits, svd.writePartial family array q.1 (q.2 - q.1) =
      some (window q.1 q.2 0 (svd.allRefs.map (entry array))) := by
    intro q hq
    obtain ⟨i, hi, rfl⟩ := List.mem_iff_getElem.mp hq
    simp only [List.length_zip, List.length_cons] at hi
    have hi₁ : i < splits.length := by omega
    have hi₀ : i < (0 :: splits).length := Nat.lt_succ_of_lt hi₁
    have hlt : (0 :: splits)[i] < splits[i] :=
      List.pairwise_iff_getElem.mp hsplits i (i + 1) (by simp; omega) (by simp; omega) (by omega)
    rw [List.getElem_zip]
    obtain ⟨calls, hcalls, hrefs, hle⟩ := partialCalls_spec h.allBits.sized
      (0 :: splits)[i] (splits[i] - (0 :: splits)[i])
    rw [hslots, Nat.add_sub_cancel' hlt.le] at hrefs
    rw [hslots] at hle
    rw [writePartial, hcalls, ← map_window]
    exact writeData_eq hsize hrefs hle
  have htv : numVars (fun d => (array d).length) = (svd.allRefs.map (entry array)).length := by
    rw [List.length_map, allRefs, length_number, length_eq_numVars]
    exact congrArg numVars (funext hsize.length_eq)
  rw [partialWrites, mapM_eq_some hpairs, Option.map_some, ← List.flatMap_def,
    flatMap_window hsplits, hlast, htv, window_all (Nat.zero_add _).le]

/-! ## Labels that tell entries apart -/

/-- A text for each entry. -/
def labelOf (r : VarRef) : Text :=
  (match r.1 with
    | .cv => 'c'
    | .div => 'i'
    | .dsv => 's'
    | .drv => 'r') :: List.replicate r.2 'x'

theorem labelOf_injective : Function.Injective labelOf := by
  rintro ⟨d, i⟩ ⟨d', i'⟩ h
  obtain ⟨hd, hi⟩ := List.cons.inj h
  have hi := congrArg List.length hi
  rw [List.length_replicate, List.length_replicate] at hi
  cases d <;> cases d' <;> first | exact Prod.ext rfl hi | cases hd

/-- Labels of the entries of the arrays. -/
def labelsOf (svd : SharedVariablesData) (d : VarDomain) : List String :=
  (List.range (svd.slots.count d)).map fun i => String.ofList (labelOf (d, i))

theorem labelsOf_sized : svd.Sized fun d => (svd.labelsOf d).length := by
  unfold Sized labelsOf
  rw [allCounts_eq]
  simp

theorem entry_labelsOf {r : VarRef} (hr : r.2 < svd.slots.count r.1) :
    entry (fun d => (svd.labelsOf d).map String.toList) r = labelOf r := by
  simp [entry, labelsOf, hr]

/-- Entries with the same labels are the same. -/
theorem refs_eq_of_labels {refs refs' : List VarRef}
    (h : refs.map (entry fun d => (svd.labelsOf d).map String.toList) =
      refs'.map (entry fun d => (svd.labelsOf d).map String.toList))
    (hr : ∀ r ∈ refs, r.2 < svd.slots.count r.1) (hr' : ∀ r ∈ refs', r.2 < svd.slots.count r.1) :
    refs = refs' := by
  apply List.map_injective_iff.mpr labelOf_injective
  rw [List.map_congr_left fun r hmem => (entry_labelsOf (hr r hmem)).symm, h]
  exact List.map_congr_left fun r hmem => entry_labelsOf (hr' r hmem)

theorem lt_count_of_mem_number {ds : List VarDomain} {r : VarRef}
    (h : r ∈ number (fun _ => 0) ds) : r.2 < ds.count r.1 := by
  have := (mem_number.mp h).2
  rwa [Counts.after, Nat.zero_add] at this

/-- All variables are written only with the bits for it. -/
theorem allBits_of_writeCore (hsize : svd.Sized fun d => (array d).length) {view : View × View}
    (h : (svd.writeCore family array view .allVars).isSome) : svd.AllBits family := by
  obtain ⟨fields, hwrite⟩ := Option.isSome_iff_exists.mp h
  simp only [writeCore, Option.bind_eq_bind, Option.bind_eq_some_iff] at hwrite
  obtain ⟨calls, hcalls, hwrite⟩ := hwrite
  obtain ⟨hle, -⟩ := writeData_iff.mp hwrite
  cases family with
  | relaxed => exact bitsSized_of_coreCalls (Option.isSome_of_eq_some hcalls)
  | mixed =>
    have hmixed : ViewFamily.mixed = .relaxed → svd.BitsSized := nofun
    obtain ⟨calls', hcalls', hrefs, -⟩ := coreCalls_all hmixed view
    rw [hcalls] at hcalls'
    cases hcalls'
    -- The arrays of discrete variables are as large as the totals.
    have hcount (d : VarDomain) : (svd.fullSlots .mixed).count d = svd.sumTotals allGroups d := by
      cases d <;> simp [fullSlots, mixedSlots, allGroups, List.count_replicate]
    have htotal (d : VarDomain) : svd.sumTotals allGroups d ≤ svd.slots.count d := by
      rcases Nat.eq_zero_or_pos (svd.sumTotals allGroups d) with hzero | hpos
      · omega
      · have hmem : (d, svd.sumTotals allGroups d - 1) ∈ callRefs calls := by
          rw [hrefs, mem_number, Counts.after, Nat.zero_add, hcount]
          omega
        have hlt := lt_of_mem_callRefs (fun d => (array d).length) hle hmem
        have heq : (array d).length = svd.slots.count d := hsize.length_eq d
        change svd.sumTotals allGroups d - 1 < (array d).length at hlt
        omega
    have hdiv := (htotal .div).trans_eq (count_slotsFrom 0 0 allGroups .div)
    have hdrv := (htotal .drv).trans_eq (count_slotsFrom 0 0 allGroups .drv)
    simp only [counts] at hdiv hdrv
    have hle (bits : List Bool) (n : Nat) : countRelaxed bits 0 n ≤ n := countRelaxed_le
    have hi := hle svd.allRelaxedDiscreteInt (svd.sumTotals allGroups .div)
    have hr := hle svd.allRelaxedDiscreteReal (svd.sumTotals allGroups .drv)
    have hint : svd.allRelaxedDiscreteInt = [] ∨
        svd.allRelaxedDiscreteInt.length = 0 + svd.sumTotals allGroups .div :=
      svd.int_length.imp_right fun hl => hl.trans (by simp [allGroups]; omega)
    have hreal : svd.allRelaxedDiscreteReal = [] ∨
        svd.allRelaxedDiscreteReal.length = 0 + svd.sumTotals allGroups .drv :=
      svd.real_length.imp_right fun hl => hl.trans (by simp [allGroups]; omega)
    exact ⟨fun i => getD_eq_false hint (by omega) (Nat.zero_le i),
      fun i => getD_eq_false hreal (by omega) (Nat.zero_le i)⟩

theorem bits_of_partialWrites {K : Type} {fmt : NumberPrinter K}
    (h : svd.PartialWrites family fmt) : svd.PartialBits family := by
  obtain ⟨hfull, hsplits⟩ := h.labels svd.labelsOf (.emptyView, .emptyView) labelsOf_sized
  have hsize (d : VarDomain) : ((svd.labelsOf d).map String.toList).length = svd.slots.count d := by
    simp [labelsOf]
  have hsized : svd.Sized fun d => ((svd.labelsOf d).map String.toList).length :=
    allCounts_eq.trans (congrArg some (funext fun d => (hsize d).symm))
  have hbits := allBits_of_writeCore hsized (Option.isSome_of_eq_some hfull)
  cases family with
  | mixed => exact hbits
  | relaxed =>
    refine ⟨hbits, allPartialSlots_relaxed.mp ?_⟩
    have hlen : (svd.allPartialSlots .relaxed).length = svd.slots.length := by
      rw [slots_eq_flatMap, allPartialSlots, List.length_flatMap, List.length_flatMap]
      simp [partialSlots, numSlots, relaxBits]
    rcases Nat.eq_zero_or_pos svd.slots.length with hzero | hpos
    · rw [List.length_eq_zero_iff.mp hzero, List.length_eq_zero_iff.mp (hlen.trans hzero)]
    · -- One partial write, of all the variables.
      have htv : numVars (fun d => ((svd.labelsOf d).map String.toList).length) =
          svd.slots.length := by
        simp only [hsize, length_eq_numVars]
      have hone := hsplits [svd.slots.length] (by simpa using hpos) htv.symm
      simp only [partialWrites, List.zip_cons_cons, List.zip_nil_right, List.mapM_cons,
        List.mapM_nil, Nat.sub_zero, Option.bind_eq_bind, writeTabularPartialLabels, writePartial,
        Option.map_eq_some_iff, Option.bind_eq_some_iff] at hone
      obtain ⟨fields, ⟨text, ⟨calls, hcalls, hwrite⟩, _, hnil, hfields⟩, htext⟩ := hone
      cases hnil
      cases hfields
      obtain ⟨calls', hcalls', hrefs, -⟩ := partialCalls_spec (fun _ => hbits) 0 svd.slots.length
      rw [hcalls] at hcalls'
      cases hcalls'
      obtain ⟨hle, heq⟩ := writeData_iff.mp hwrite
      simp only [hsize] at hle
      rw [Nat.zero_add, window_all (by rw [length_number, hlen, Nat.zero_add])] at hrefs
      rw [List.flatten_singleton, heq, List.nil_append, hrefs] at htext
      apply number_injective
      refine refs_eq_of_labels htext (fun r hr => ?_) fun r hr => lt_count_of_mem_number hr
      exact lt_of_mem_callRefs (fun d => svd.slots.count d) hle (hrefs ▸ hr)

/-- **Partial writes** put together give the full write, of the values and of the labels, if and only
if the bits of each group are those of the first variables, or the variables are mixed and none is
relaxed. Every entry is written once. -/
theorem writeTabularPartial_iff {K : Type} (fmt : NumberPrinter K) (svd : SharedVariablesData)
    (family : ViewFamily) :
    (svd.PartialWrites family fmt ↔ svd.PartialBits family) ∧
      svd.allRefs.Nodup ∧ ∀ d i, (d, i) ∈ svd.allRefs ↔ i < svd.slots.count d := by
  refine ⟨⟨bits_of_partialWrites, fun h => ⟨fun rep hsize => ?_, fun labels view hsize => ?_⟩⟩,
    nodup_number, fun d i => ?_⟩
  · exact concatenates_of_bits h hsize rep.view
  · refine concatenates_of_bits h ?_ view
    simpa only [List.length_map] using hsize
  · rw [allRefs, mem_number, Counts.after, Nat.zero_add]
    exact and_iff_right (Nat.zero_le i)

/-- A relaxed discrete int variable of the design group, and one of the aleatory uncertain group that
is not relaxed. -/
def relaxedThenInt : SharedVariablesData where
  variablesCompsTotals g d := if (g = .design ∨ g = .aleatoryUncertain) ∧ d = .div then 1 else 0
  allRelaxedDiscreteInt := [true, false]
  allRelaxedDiscreteReal := []
  int_length := by decide
  real_length := by decide

/-- Natural numbers, in decimal digits. -/
def decimalPrinter : NumberPrinter Nat where
  real n := (toString n).toList
  int n := (toString n).toList

/-- The bit of the first variable is read for the second, and a second continuous variable is written,
which does not exist. -/
theorem relaxedThenInt_not_partialWrites :
    ¬ relaxedThenInt.PartialWrites .relaxed decimalPrinter := by
  intro h
  have hsized : relaxedThenInt.Sized fun d => (relaxedThenInt.labelsOf d).length := labelsOf_sized
  have hsplits := (h.labels relaxedThenInt.labelsOf (.relaxed .design, .emptyView) hsized).2
  have hone := hsplits [2] (by decide) (by decide)
  have htexts : partialWrites (relaxedThenInt.writeTabularPartialLabels .relaxed
      relaxedThenInt.labelsOf) [2] = none := by decide
  rw [htexts] at hone
  cases hone

end SharedVariablesData

end Dakota
