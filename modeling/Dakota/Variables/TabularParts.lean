import Dakota.Variables.TabularRead

/-!
# Active and inactive parts

`write_tabular` and `read_tabular` of the active and of the inactive variables.

* `viewRefs`: the entries of the variables of a view, in the order of the specification.
* `roundTrip_of_bits`: with the bits for it, a part is written as those entries and read back.
-/

namespace Dakota

namespace SharedVariablesData

variable (svd : SharedVariablesData) (family : ViewFamily)

/-- The groups before those of a view. -/
def viewSkip : View → List VarGroup
  | .emptyView => []
  | .relaxed s => skipGroups s
  | .mixed s => skipGroups s

/-- An active view and an inactive view, which may be empty, of one family. -/
def viewPair (active : ViewSubset) (inactive : Option ViewSubset) : View × View :=
  (family.view active, match inactive with
    | none => .emptyView
    | some s => family.view s)

/-- The view of a part. -/
def partView (active : ViewSubset) (inactive : Option ViewSubset) : VarsPart → View
  | .allVars => family.view .all
  | .activeVars => (viewPair family active inactive).1
  | .inactiveVars => (viewPair family active inactive).2

/-- The offsets of the variables of a view. -/
def viewOffset (view : View) : Counts := fun d => (svd.slotsAfter [] (viewSkip view)).count d

/-- The entries of the variables of a view. -/
def viewRefs (view : View) : List VarRef :=
  number (svd.viewOffset view) (svd.slotsAfter (viewSkip view) (viewGroups view))

/-- A part of variables is written as the entries of a view, which are some of those that all
variables are written as, and read back from there into any variables with the same shared data. -/
structure PartRoundTrip {K : Type} (fmt : NumberFormat K) (width : Nat) (part : VarsPart)
    (view : View) (src : VariablesRep K) : Prop where
  writes : svd.writeTabular family fmt.toNumberPrinter src part =
    some ((svd.viewRefs view).map (entry (src.texts fmt.toNumberPrinter)))
  all : svd.writeTabular family fmt.toNumberPrinter src .allVars =
    some (svd.allRefs.map (entry (src.texts fmt.toNumberPrinter)))
  sublist : (svd.viewRefs view).Sublist svd.allRefs
  reads : ∀ tgt : VariablesRep K, svd.Sized tgt.size → tgt.view = src.view →
    ∃ tgt', svd.readTabular fmt family tgt part (render width ((svd.viewRefs view).map
        (entry (src.texts fmt.toNumberPrinter)))) = some tgt' ∧
      tgt'.view = tgt.view ∧
      ∀ r, tgt'.value r = if r ∈ svd.viewRefs view then src.value r else tgt.value r

/-- The bits of the variables of a view are the first bits. -/
def FirstBits (view : View) : Prop :=
  (∀ i < svd.sumTotals (viewGroups view) .div, svd.allRelaxedDiscreteInt.getD i false =
    svd.allRelaxedDiscreteInt.getD (svd.sumTotals (viewSkip view) .div + i) false) ∧
  ∀ i < svd.sumTotals (viewGroups view) .drv, svd.allRelaxedDiscreteReal.getD i false =
    svd.allRelaxedDiscreteReal.getD (svd.sumTotals (viewSkip view) .drv + i) false

/-- The slots that reads and writes of a view are about. -/
def partSlots (view : View) : List VarDomain :=
  match family with
  | .relaxed => svd.slotsFrom 0 0 (viewGroups view)
  | .mixed => (viewGroups view).flatMap fun g => mixedSlots (svd.variablesCompsTotals g)

variable {svd family} {active : ViewSubset} {inactive : Option ViewSubset} {part : VarsPart}

/-! ## The slots of a view -/

theorem slotsFrom_eq_iff {groups : List VarGroup} {i r i' r' : Nat} :
    svd.slotsFrom i r groups = svd.slotsFrom i' r' groups ↔
      (∀ k < svd.sumTotals groups .div, svd.allRelaxedDiscreteInt.getD (i + k) false =
        svd.allRelaxedDiscreteInt.getD (i' + k) false) ∧
      ∀ k < svd.sumTotals groups .drv, svd.allRelaxedDiscreteReal.getD (r + k) false =
        svd.allRelaxedDiscreteReal.getD (r' + k) false := by
  have hsplit {bits : List Bool} {o o' m n : Nat} :
      (∀ k < m + n, bits.getD (o + k) false = bits.getD (o' + k) false) ↔
        (∀ k < m, bits.getD (o + k) false = bits.getD (o' + k) false) ∧
        ∀ k < n, bits.getD (o + m + k) false = bits.getD (o' + m + k) false := by
    constructor
    · intro h
      refine ⟨fun k hk => h k (by omega), fun k hk => ?_⟩
      rw [Nat.add_assoc, Nat.add_assoc]
      exact h (m + k) (by omega)
    · rintro ⟨h₁, h₂⟩ k hk
      rcases Nat.lt_or_ge k m with hkm | hkm
      · exact h₁ k hkm
      · have := h₂ (k - m) (by omega)
        rwa [Nat.add_assoc, Nat.add_assoc, Nat.add_sub_cancel' hkm] at this
  induction groups generalizing i r i' r' with
  | nil => simp [slotsFrom]
  | cons g groups ih =>
    have hlen : (svd.groupSlots i r g).length = (svd.groupSlots i' r' g).length := by
      simp [groupSlots, relaxBits]
    have hgroup : svd.groupSlots i r g = svd.groupSlots i' r' g ↔ _ :=
      @numSlots_eq_iff svd (svd.variablesCompsTotals g) i r i' r'
    rw [slotsFrom, slotsFrom, sumTotals_cons, sumTotals_cons, hsplit, hsplit]
    constructor
    · intro h
      obtain ⟨h₁, h₂⟩ := List.append_inj h hlen
      obtain ⟨hi₁, hr₁⟩ := hgroup.mp h₁
      obtain ⟨hi₂, hr₂⟩ := ih.mp h₂
      exact ⟨⟨hi₁, hi₂⟩, hr₁, hr₂⟩
    · rintro ⟨⟨hi₁, hi₂⟩, hr₁, hr₂⟩
      rw [hgroup.mpr ⟨hi₁, hr₁⟩, ih.mpr ⟨hi₂, hr₂⟩]

/-- Relaxed variables of a view have the slots of the view if their bits are the first bits. -/
theorem partSlots_relaxed_iff {view : View} : svd.partSlots .relaxed view =
    svd.slotsAfter (viewSkip view) (viewGroups view) ↔ svd.FirstBits view := by
  simp only [partSlots, slotsAfter, slotsFrom_eq_iff, FirstBits, Nat.zero_add]

theorem slotsFrom_of_not_relaxed (h : svd.RelaxedWithin .mixed) (i r : Nat)
    (groups : List VarGroup) : svd.slotsFrom i r groups =
      groups.flatMap fun g => mixedSlots (svd.variablesCompsTotals g) := by
  induction groups generalizing i r with
  | nil => rfl
  | cons g groups ih =>
    rw [slotsFrom, ih, List.flatMap_cons]
    exact congrArg (· ++ _) (numSlots_of_not_relaxed h _ i r)

/-- The groups of a view stand together. -/
theorem exists_rest (view : View) : ∃ rest, viewSkip view ++ viewGroups view ++ rest = allGroups := by
  cases view with
  | emptyView => exact ⟨allGroups, rfl⟩
  | relaxed s => cases s <;> exact ⟨_, rfl⟩
  | mixed s => cases s <;> exact ⟨_, rfl⟩

theorem slots_eq_append (view : View) : ∃ rest, svd.slots = svd.slotsAfter [] (viewSkip view) ++
    svd.slotsAfter (viewSkip view) (viewGroups view) ++ rest := by
  obtain ⟨rest, hrest⟩ := exists_rest view
  refine ⟨svd.slotsAfter (viewSkip view ++ viewGroups view) rest, ?_⟩
  rw [slots, ← hrest, slotsAfter_append, slotsAfter_append]
  rfl

theorem viewRefs_sublist (view : View) : (svd.viewRefs view).Sublist svd.allRefs := by
  obtain ⟨rest, hrest⟩ := svd.slots_eq_append view
  have hoffset : (Counts.after (fun _ => 0) (svd.slotsAfter [] (viewSkip view))) =
      svd.viewOffset view := by
    funext d
    exact Nat.zero_add _
  rw [allRefs, hrest, number_append, number_append, hoffset]
  exact (List.sublist_append_right _ _).trans (List.sublist_append_left _ _)

/-! ## The calls of a part -/

/-- The arrays behind the entries of a view. -/
theorem after_le (view : View) (d : VarDomain) : (svd.viewOffset view).after
    (svd.slotsAfter (viewSkip view) (viewGroups view)) d ≤ svd.slots.count d := by
  obtain ⟨rest, hrest⟩ := svd.slots_eq_append view
  rw [hrest, List.count_append, List.count_append]
  exact Nat.le_add_right _ _

/-- The loops over all the groups with the totals of a view. -/
theorem slotsOf_view (view : View) : svd.slotsOf (svd.viewComponentsTotals (viewGroups view)) 0 0
    allGroups = svd.slotsFrom 0 0 (viewGroups view) := by
  have hnone (i r : Nat) : svd.numSlots (fun _ => 0) i r = [] := rfl
  have hsubset (s : ViewSubset) : svd.slotsOf (svd.viewComponentsTotals (ownGroups s)) 0 0
      allGroups = svd.slotsFrom 0 0 (ownGroups s) := by
    cases s <;> simp [ownGroups, allGroups, viewComponentsTotals, slotsOf, slotsFrom, hnone] <;> rfl
  cases view with
  | emptyView => rfl
  | relaxed s => exact hsubset s
  | mixed s => exact hsubset s

theorem mixedSlots_view (view : View) : (allGroups.flatMap fun g =>
    mixedSlots (svd.viewComponentsTotals (viewGroups view) g)) =
      (viewGroups view).flatMap fun g => mixedSlots (svd.variablesCompsTotals g) := by
  have hnone : mixedSlots (fun _ => 0) = [] := rfl
  have hsubset (s : ViewSubset) : (allGroups.flatMap fun g =>
      mixedSlots (svd.viewComponentsTotals (ownGroups s) g)) =
        (ownGroups s).flatMap fun g => mixedSlots (svd.variablesCompsTotals g) := by
    cases s <;> simp [ownGroups, allGroups, viewComponentsTotals, hnone]
  cases view with
  | emptyView => rfl
  | relaxed s => exact hsubset s
  | mixed s => exact hsubset s

theorem sumOf_view_le (view : View) (d : VarDomain) :
    sumOf (svd.viewComponentsTotals (viewGroups view)) allGroups d ≤ svd.sumTotals allGroups d := by
  apply List.sum_le_sum
  intro g _
  unfold viewComponentsTotals
  split
  · exact le_rfl
  · exact Nat.zero_le _

/-- The offsets of a part. -/
theorem viewStartCounts_start (hbits : family = .mixed → svd.RelaxedWithin .mixed) {view : View}
    (hview : view = .emptyView ∨ ∃ s, view = family.view s) :
    ∃ sc, svd.viewStartCounts view = some sc ∧ sc.start = svd.viewOffset view := by
  rcases hview with rfl | ⟨s, rfl⟩
  · exact ⟨_, rfl, rfl⟩
  · cases family with
    | mixed =>
      exact ⟨_, viewStartCounts_mixed (anyRelaxed_eq_false.mpr (hbits rfl)) s, rfl⟩
    | relaxed =>
      by_cases hs : s = .all
      · subst hs
        have hle (bits : List Bool) (d : VarDomain) :
            countRelaxed bits 0 (svd.variablesCompsTotals .design d) ≤ svd.sumTotals allGroups d :=
          countRelaxed_le.trans (Nat.le_add_right _ _)
        have hall : ∃ sc, svd.relaxedAllStartCounts = some sc ∧ sc.start = fun _ => 0 := by
          simp only [relaxedAllStartCounts, sizeSub_of_le (hle _ .div), sizeSub_of_le (hle _ .drv),
            Option.bind_eq_bind, Option.bind_some]
          exact ⟨_, rfl, rfl⟩
        exact hall
      · exact ⟨_, viewStartCounts_relaxed hs, rfl⟩

theorem partView_family (active : ViewSubset) (inactive : Option ViewSubset) (part : VarsPart) :
    partView family active inactive part = .emptyView ∨
      ∃ s, partView family active inactive part = family.view s := by
  cases part with
  | allVars => exact .inr ⟨_, rfl⟩
  | activeVars => exact .inr ⟨_, rfl⟩
  | inactiveVars => cases inactive with
    | none => exact .inl rfl
    | some s => exact .inr ⟨s, rfl⟩

/-- The totals and the offsets of a part. -/
theorem partStart_eq (family : ViewFamily) (hbits : family = .mixed → svd.RelaxedWithin .mixed)
    (active : ViewSubset) (inactive : Option ViewSubset) (part : VarsPart) :
    svd.partStart (viewPair family active inactive) part =
      some (svd.viewComponentsTotals (viewGroups (partView family active inactive part)),
        svd.viewOffset (partView family active inactive part)) := by
  obtain ⟨sc, hsc, hstart⟩ :=
    viewStartCounts_start hbits (partView_family active inactive part)
  cases part with
  | allVars =>
    have hall : svd.viewComponentsTotals (viewGroups (family.view .all)) =
        svd.variablesCompsTotals := by
      funext g
      cases family <;> cases g <;> rfl
    have hoffset : svd.viewOffset (family.view .all) = fun _ => 0 := by
      cases family <;> rfl
    rw [partView, hall, hoffset]
    rfl
  | activeVars =>
    change (do let sc ← svd.viewStartCounts (partView family active inactive .activeVars); _) = _
    rw [hsc, ← hstart]
    rfl
  | inactiveVars =>
    change (do let sc ← svd.viewStartCounts (partView family active inactive .inactiveVars); _) = _
    rw [hsc, ← hstart]
    rfl

theorem coreCalls_part (hbits : svd.AllBits family) (active : ViewSubset)
    (inactive : Option ViewSubset) (part : VarsPart) :
    let view := partView family active inactive part
    ∃ calls, svd.coreCalls family (viewPair family active inactive) part = some calls ∧
      callRefs calls = number (svd.viewOffset view) (svd.partSlots family view) ∧
      ∀ c ∈ calls, c.startIndex + c.numItems ≤
        (svd.viewOffset view).after (svd.partSlots family view) c.array := by
  intro view
  have hfollows {w : Walk} {ds : List VarDomain} (h : Walk.Follows ⟨svd.viewOffset view, []⟩ ds w) :
      callRefs w.calls = number (svd.viewOffset view) ds ∧
        ∀ c ∈ w.calls, c.startIndex + c.numItems ≤ (svd.viewOffset view).after ds c.array := by
    refine ⟨h.refs, fun c hc => ?_⟩
    rcases h.bounded c hc with hc | hc
    · cases hc
    · rwa [h.offset] at hc
  cases family with
  | relaxed =>
    obtain ⟨hint, hreal⟩ : svd.BitsSized := hbits
    have hmixed : ViewFamily.relaxed = .mixed → svd.RelaxedWithin .mixed := nofun
    have hstart := partStart_eq .relaxed hmixed active inactive part
    have hi : sumOf (svd.viewComponentsTotals (viewGroups view)) allGroups .div = 0 ∨
        0 + sumOf (svd.viewComponentsTotals (viewGroups view)) allGroups .div ≤
          svd.allRelaxedDiscreteInt.length :=
      .inr ((Nat.zero_add _).trans_le ((sumOf_view_le view .div).trans_eq hint.symm))
    have hr : sumOf (svd.viewComponentsTotals (viewGroups view)) allGroups .drv = 0 ∨
        0 + sumOf (svd.viewComponentsTotals (viewGroups view)) allGroups .drv ≤
          svd.allRelaxedDiscreteReal.length :=
      .inr ((Nat.zero_add _).trans_le ((sumOf_view_le view .drv).trans_eq hreal.symm))
    obtain ⟨w, hgroups, hw⟩ := relaxedGroups_follows ⟨svd.viewOffset view, []⟩ hi hr
    rw [slotsOf_view] at hw
    refine ⟨w.calls, ?_, hfollows hw⟩
    simp only [coreCalls, hstart, Option.bind_eq_bind, Option.bind_some]
    rw [hgroups]
    rfl
  | mixed =>
    have hstart := partStart_eq .mixed (fun _ => hbits) active inactive part
    have hw : Walk.Follows ⟨svd.viewOffset view, []⟩ _ (mixedGroups
        (svd.viewComponentsTotals (viewGroups view)) allGroups ⟨svd.viewOffset view, []⟩) :=
      mixedGroups_follows
    rw [mixedSlots_view] at hw
    refine ⟨_, ?_, hfollows hw⟩
    simp only [coreCalls, hstart, Option.bind_eq_bind, Option.bind_some]
    rfl

/-! ## A part is written and read back -/

/-- The bits for which a part is written and read back. -/
def PartBits (svd : SharedVariablesData) (family : ViewFamily) (view : View) : Prop :=
  svd.AllBits family ∧ (family = .relaxed → svd.FirstBits view)

theorem PartBits.partSlots_eq {view : View} (h : svd.PartBits family view) :
    svd.partSlots family view = svd.slotsAfter (viewSkip view) (viewGroups view) := by
  cases family with
  | relaxed => exact partSlots_relaxed_iff.mpr (h.2 rfl)
  | mixed => exact (slotsFrom_of_not_relaxed h.1 _ _ _).symm

theorem Sized.size_eq {size : Counts} (h : svd.Sized size) (d : VarDomain) :
    size d = svd.slots.count d := by
  have hcounts := Option.some.inj (allCounts_eq.symm.trans h)
  exact (congrFun hcounts d).symm

/-- The calls of a part are about the entries of its view. -/
theorem coreCalls_view (h : svd.PartBits family (partView family active inactive part)) :
    ∃ calls, svd.coreCalls family (viewPair family active inactive) part = some calls ∧
      callRefs calls = svd.viewRefs (partView family active inactive part) ∧
      ∀ c ∈ calls, c.startIndex + c.numItems ≤ svd.slots.count c.array := by
  obtain ⟨calls, hcalls, hrefs, hle⟩ := coreCalls_part h.1 active inactive part
  rw [h.partSlots_eq] at hrefs hle
  exact ⟨calls, hcalls, hrefs, fun c hc => (hle c hc).trans (after_le _ _)⟩

section

variable {K : Type} {fmt : NumberFormat K} {width : Nat} {src tgt : VariablesRep K}

theorem Sized.texts (h : svd.Sized src.size) (fmt : NumberPrinter K) :
    svd.Sized fun d => (src.texts fmt d).length := by
  have hsize : (fun d => (src.texts fmt d).length) = src.size :=
    funext fun d => VariablesRep.length_texts fmt d
  rwa [hsize]

theorem roundTrip_of_bits (h : svd.PartBits family (partView family active inactive part))
    (hsize : svd.Sized src.size) (hview : src.view = viewPair family active inactive)
    (hword : ∀ r ∈ svd.viewRefs (partView family active inactive part), r.1 = .dsv →
      IsWord (entry (src.texts fmt.toNumberPrinter) r)) :
    svd.PartRoundTrip family fmt width part (partView family active inactive part) src := by
  obtain ⟨calls, hcalls, hrefs, hle⟩ := coreCalls_view h
  have hlt : ∀ r ∈ svd.viewRefs (partView family active inactive part),
      r.2 < svd.slots.count r.1 := by
    rw [← hrefs]
    exact fun r hr => lt_of_mem_callRefs (fun d => svd.slots.count d) hle hr
  refine ⟨?_, writeCore_all h.1 (hsize.texts _) _, viewRefs_sublist _, fun tgt htgt htview => ?_⟩
  · rw [writeTabular, writeCore, hview, hcalls]
    exact writeData_eq (hsize.texts _) hrefs hle
  · have hin {rep : VariablesRep K} (hrep : svd.Sized rep.size) :
        ∀ c ∈ calls, c.startIndex + c.numItems ≤ rep.size c.array :=
      fun c hc => (hle c hc).trans_eq (hrep.size_eq _).symm
    have hat : IStream.At ⟨render width ((callRefs calls).map
        (entry (src.texts fmt.toNumberPrinter))), false, false⟩ (render width
          ((callRefs calls).map (entry (src.texts fmt.toNumberPrinter))) ++ []) := by
      rw [List.append_nil]
      exact .inr ⟨rfl, rfl⟩
    obtain ⟨s', hread, -⟩ := readCalls_spec (hin hsize) (hin htgt) (hrefs ▸ hword) hat
    rw [hrefs] at hread
    refine ⟨(svd.viewRefs (partView family active inactive part)).foldl src.copyEntry tgt, ?_,
      VariablesRep.view_foldl_copyEntry _, fun r => VariablesRep.value_foldl_copyEntry
        (fun q hq => (hlt q hq).trans_eq (hsize.size_eq _).symm)
        (fun q hq => (hlt q hq).trans_eq (htgt.size_eq _).symm) r⟩
    simp only [readTabular, htview, hview, hcalls, Option.bind_eq_bind, Option.bind_some]
    rw [hread]
    rfl

/-! ## What a part needs -/

/-- Strings that are read are words. -/
theorem readStrings_word {num i : Nat} {v v' : List String} {s s' : IStream}
    (h : readStrings num i v s = some (v', s')) {j : Nat} {x : String} (hx : v'[j]? = some x) :
    v[j]? = some x ∨ IsWord x.toList := by
  induction num generalizing i v s with
  | zero =>
    cases h
    exact .inl hx
  | succ num ih =>
    rw [readStrings] at h
    split at h
    · cases h
    have hstring := s.getString_word (v.getD i "")
    cases hget : s.getString (v.getD i "") with
    | mk y s₁ =>
    rw [hget] at h hstring
    rcases ih h with h' | h'
    · by_cases hj : i = j
      · subst hj
        rcases Nat.lt_or_ge i v.length with hi | hi
        · rw [List.getElem?_set_self hi] at h'
          cases h'
          refine hstring.imp_left fun heq => ?_
          have heq : x = v.getD i "" := heq
          rw [heq, List.getD_eq_getElem _ _ hi, List.getElem?_eq_getElem hi]
        · rw [List.getElem?_eq_none (by simpa using hi)] at h'
          cases h'
      · rw [List.getElem?_set_ne hj] at h'
        exact .inl h'
    · exact .inr h'

theorem readCall_word {c : Call} {st st' : VariablesRep K × IStream}
    (h : readDataPartialTabular fmt st c = some st') {j : Nat} {x : String}
    (hx : st'.1.allDiscreteStringVars[j]? = some x) :
    st.1.allDiscreteStringVars[j]? = some x ∨ IsWord x.toList := by
  obtain ⟨rep, s⟩ := st
  obtain ⟨d, i, n⟩ := c
  unfold readDataPartialTabular at h
  cases d with
  | cv | div | drv =>
    simp only at h
    split at h
    · obtain ⟨⟨v, s'⟩, -, heq⟩ := Option.bind_eq_some_iff.mp h
      cases heq
      exact .inl hx
    · cases h
  | dsv =>
    simp only at h
    split at h
    · obtain ⟨⟨v, s'⟩, hread, heq⟩ := Option.bind_eq_some_iff.mp h
      cases heq
      exact readStrings_word hread hx
    · cases h

theorem readTabular_word {rep rep' : VariablesRep K} {text : List Char}
    (h : svd.readTabular fmt family rep part text = some rep') {j : Nat} {x : String}
    (hx : rep'.allDiscreteStringVars[j]? = some x) :
    rep.allDiscreteStringVars[j]? = some x ∨ IsWord x.toList := by
  simp only [readTabular, Option.bind_eq_bind, Option.bind_eq_some_iff] at h
  obtain ⟨calls, -, ⟨rep₁, s⟩, hread, heq⟩ := h
  cases heq
  have hrun (calls : List Call) {st st' : VariablesRep K × IStream}
      (h : calls.foldlM (readDataPartialTabular fmt) st = some st')
      (hx : st'.1.allDiscreteStringVars[j]? = some x) :
      st.1.allDiscreteStringVars[j]? = some x ∨ IsWord x.toList := by
    induction calls generalizing st with
    | nil =>
      cases h
      exact .inl hx
    | cons c calls ih =>
      rw [List.foldlM_cons, Option.bind_eq_bind, Option.bind_eq_some_iff] at h
      obtain ⟨st₁, hcall, hcalls⟩ := h
      rcases ih hcalls with h₁ | h₁
      · exact readCall_word hcall h₁
      · exact .inr h₁
  exact hrun calls hread hx

end

end SharedVariablesData

end Dakota
