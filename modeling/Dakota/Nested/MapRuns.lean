import Dakota.Lib.Outcome
import Dakota.Nested.VariableMaps

/-!
# Runs of the map construction

What the loops of the constructor of `NestedModel` leave in the maps.

* `defaultIndex_eq_some`: a default mapping gets the first variable of its type in the sub-model,
  plus the number of earlier default mappings of the type.
* `mapActive_run`, `mapComplement_run`: hence each entry is determined by the mappings before it.
* `construct_eq_some`: the maps of an accepted specification.
-/

namespace Dakota

/-- A counter that has passed over the variables `done`. -/
structure TypeCounter.Counts (types : List VarType) (c : TypeCounter) (done : List VarType) :
    Prop where
  run : c.toRunCounter.Counts done
  avail_eq : ∀ t, c.prev = some t → c.avail = types.count t

theorem TypeCounter.counts_init {types : List VarType} : TypeCounter.init.Counts types [] :=
  ⟨RunCounter.counts_nil, fun _ h => nomatch h⟩

section

variable {types done : List VarType} {t : VarType} {c c' : TypeCounter} {q : Nat}

theorem defaultIndex_eq_some (hc : c.Counts types done) (hgroup : Grouped (done ++ [t]))
    (h : defaultIndex types t c = some (q, c')) :
    t ∈ types ∧ done.count t < types.count t ∧ q = types.idxOf t + done.count t ∧
      c'.Counts types (done ++ [t]) := by
  simp only [defaultIndex, Option.bind_eq_bind, Option.bind_eq_some_iff] at h
  obtain ⟨offset, hoffset, h⟩ := h
  have havail : (if some t = c.prev then c.avail else types.count t) = types.count t := by
    split
    · rename_i heq
      exact hc.avail_eq t heq.symm
    · rfl
  have hnumber := hc.run.number hgroup
  have hnext := hc.run.next hgroup
  rw [havail, hnumber] at h
  rw [hnumber] at hnext
  split at h
  · rename_i hlt
    obtain ⟨rfl, rfl⟩ := Prod.mk.inj (Option.some.inj h)
    obtain ⟨hmem, rfl⟩ := List.idxOf?_eq_some.mp hoffset
    refine ⟨hmem, hlt, rfl, hnext, ?_⟩
    rintro s hs
    rw [Option.some.inj hs]
  · cases h

end

namespace NestedVariables

variable (m : NestedVariables)

/-- The slice of the active variables. -/
def view : StartCounts := m.spec.svd.viewSlice m.spec.subset

/-- The primary mapping of an active variable. -/
def label (d : VarDomain) (i : Nat) : String := ((m.indexToActiveIndex d i).map m.map1).getD ""

/-- The type of an active variable with a default mapping. -/
def activeDefault (d : VarDomain) (i : Nat) : Option VarType :=
  if m.label d i = "" then (activeView m.view d (m.spec.types d))[i]? else none

/-- The type of a variable that the loop over the complement goes to. -/
def complementDefault (d : VarDomain) (i : Nat) : Option VarType :=
  (m.complementIndexToDomainIndex d i).bind fun p => (m.spec.types d)[p]?

/-- An entry of an active variable. -/
structure ActiveEntry (d : VarDomain) (i : Nat) (entry : MapEntry) : Prop where
  default : m.label d i = "" → ∃ t, (activeView m.view d (m.spec.types d))[i]? = some t ∧
    t ∈ m.sub.types d ∧ (passed (m.activeDefault d) i).count t < (m.sub.types d).count t ∧
    entry = MapEntry.only d ((m.sub.types d).idxOf t + (passed (m.activeDefault d) i).count t)
  labelled : m.label d i ≠ "" → m.sub.resolveMap1 (m.label d i) = some entry

variable {m} {d e : VarDomain} {i j k n : Nat}

theorem code_le {p p' : Nat} {t t' : VarType} (h : p < p') (ht : (m.spec.types d)[p]? = some t)
    (ht' : (m.spec.types d)[p']? = some t') : t.code ≤ t'.code := by
  obtain ⟨hp, rfl⟩ := List.getElem?_eq_some_iff.mp ht
  obtain ⟨hp', rfl⟩ := List.getElem?_eq_some_iff.mp ht'
  exact List.pairwise_iff_getElem.mp (VariablesSpec.types_sorted d) p p' hp hp' h

theorem getElem?_activeView {α : Type} {view : StartCounts} {l : List α} (hi : i < view.num d) :
    (activeView view d l)[i]? = l[view.start d + i]? := by
  rw [activeView, List.getElem?_take_of_lt hi, List.getElem?_drop]

theorem getElem?_activeView_eq_some {α : Type} {view : StartCounts} {l : List α} {a : α} :
    (activeView view d l)[i]? = some a ↔ i < view.num d ∧ l[view.start d + i]? = some a := by
  constructor
  · intro h
    obtain ⟨hi, -⟩ := List.getElem?_eq_some_iff.mp h
    have hlt : i < view.num d := by
      rw [activeView, List.length_take] at hi
      omega
    exact ⟨hlt, getElem?_activeView hlt ▸ h⟩
  · rintro ⟨hi, h⟩
    rwa [getElem?_activeView hi]

theorem activeDefault_eq_some {t : VarType} : m.activeDefault d i = some t ↔
    m.label d i = "" ∧ i < m.view.num d ∧ (m.spec.types d)[m.view.start d + i]? = some t := by
  unfold activeDefault
  split
  · rename_i h
    rw [getElem?_activeView_eq_some]
    exact ⟨fun ht => ⟨h, ht⟩, fun ht => ht.2⟩
  · rename_i h
    exact ⟨fun ht => (nomatch ht), fun ht => absurd ht.1 h⟩

theorem grouped_activeDefault : Grouped (passed (m.activeDefault d) n) := by
  apply grouped_passed VarType.code_injective
  intro i j s t hij hs ht
  obtain ⟨-, -, hs⟩ := activeDefault_eq_some.mp hs
  obtain ⟨-, -, ht⟩ := activeDefault_eq_some.mp ht
  exact code_le (Nat.add_lt_add_left hij _) hs ht

/-! ## Indices of active variables -/

theorem indexToActiveIndex_lt (hij : i < j) {a b : Nat} (ha : m.indexToActiveIndex d i = some a)
    (hb : m.indexToActiveIndex d j = some b) : a < b := by
  unfold indexToActiveIndex at ha hb
  rw [SharedVariablesData.indexToActiveIndex_eq] at ha hb
  exact SharedVariablesData.findIdxs_increasing hij ha hb

/-- No two variables have the same index. -/
theorem indexToActiveIndex_injective (h : m.indexToActiveIndex d i = some k)
    (h' : m.indexToActiveIndex e j = some k) : d = e ∧ i = j := by
  have hd : d = e := by
    unfold indexToActiveIndex at h h'
    rw [SharedVariablesData.indexToActiveIndex_eq] at h h'
    obtain ⟨x, hx, hxd⟩ := List.getElem?_findIdxs_eq_some h
    obtain ⟨y, hy, hye⟩ := List.getElem?_findIdxs_eq_some h'
    rw [hx] at hy
    cases hy
    rw [decide_eq_true_eq] at hxd hye
    exact hxd.symm.trans hye
  subst hd
  refine ⟨rfl, ?_⟩
  rcases Nat.lt_trichotomy i j with hij | hij | hij
  · exact absurd (indexToActiveIndex_lt hij h h') (Nat.lt_irrefl k)
  · exact hij
  · exact absurd (indexToActiveIndex_lt hij h' h) (Nat.lt_irrefl k)

/-! ## The loop over the active variables -/

/-- One active variable: its entry, and the counter behind it. -/
theorem mapActiveStep_eq_some {s s' : (Nat → MapEntry) × TypeCounter}
    (hc : s.2.Counts (m.sub.types d) (passed (m.activeDefault d) i))
    (h : m.mapActiveStep m.view d s i = some s') :
    ∃ k entry, m.indexToActiveIndex d i = some k ∧ m.ActiveEntry d i entry ∧
      s'.1 = Function.update s.1 k entry ∧
      s'.2.Counts (m.sub.types d) (passed (m.activeDefault d) (i + 1)) := by
  simp only [mapActiveStep, Option.bind_eq_bind, Option.bind_eq_some_iff] at h
  obtain ⟨k, hk, h⟩ := h
  have hlabel : m.label d i = m.map1 k := by
    rw [label, hk]
    rfl
  rw [← hlabel] at h
  split at h
  · rename_i hdefault
    obtain ⟨t, ht, h⟩ := Option.bind_eq_some_iff.mp h
    obtain ⟨⟨q, c⟩, hq, h⟩ := Option.bind_eq_some_iff.mp h
    cases h
    have hpassed : passed (m.activeDefault d) (i + 1) = passed (m.activeDefault d) i ++ [t] := by
      rw [passed_succ, activeDefault, if_pos hdefault, ht]
      rfl
    obtain ⟨hmem, hlt, rfl, hc'⟩ := defaultIndex_eq_some hc (hpassed ▸ grouped_activeDefault) hq
    exact ⟨k, _, hk, ⟨fun _ => ⟨t, ht, hmem, hlt, rfl⟩, fun hne => absurd hdefault hne⟩, rfl,
      hpassed ▸ hc'⟩
  · rename_i hlabelled
    obtain ⟨entry, hentry, h⟩ := Option.bind_eq_some_iff.mp h
    cases h
    have hpassed : passed (m.activeDefault d) (i + 1) = passed (m.activeDefault d) i := by
      rw [passed_succ, activeDefault, if_neg hlabelled]
      exact List.append_nil _
    exact ⟨k, entry, hk, ⟨fun hdefault => absurd hdefault hlabelled, fun _ => hentry⟩, rfl,
      hpassed ▸ hc⟩

theorem mapActive_steps {active : Nat → MapEntry} {s : (Nat → MapEntry) × TypeCounter}
    (h : (List.range n).foldlM (m.mapActiveStep m.view d) (active, .init) = some s) :
    s.2.Counts (m.sub.types d) (passed (m.activeDefault d) n) ∧
      (∀ i < n, ∃ k, m.indexToActiveIndex d i = some k ∧ m.ActiveEntry d i (s.1 k)) ∧
      ∀ k, (∀ i < n, m.indexToActiveIndex d i ≠ some k) → s.1 k = active k := by
  induction n generalizing s with
  | zero =>
    cases h
    exact ⟨TypeCounter.counts_init, fun i hi => absurd hi (Nat.not_lt_zero i), fun k _ => rfl⟩
  | succ n ih =>
    rw [List.range_succ, List.foldlM_append, Option.bind_eq_bind,
      Option.bind_eq_some_iff] at h
    obtain ⟨s₀, hs₀, h⟩ := h
    obtain ⟨hc, hentries, hkept⟩ := ih hs₀
    simp only [List.foldlM_cons, List.foldlM_nil, bind_pure] at h
    obtain ⟨k, entry, hk, hentry, hupdate, hc'⟩ := mapActiveStep_eq_some hc h
    refine ⟨hc', fun i hi => ?_, fun k' hk' => ?_⟩
    · rcases Nat.lt_succ_iff_lt_or_eq.mp hi with hi | rfl
      · obtain ⟨a, ha, hae⟩ := hentries i hi
        have hne : a ≠ k := (indexToActiveIndex_lt hi ha hk).ne
        refine ⟨a, ha, ?_⟩
        rwa [hupdate, Function.update_of_ne hne]
      · refine ⟨k, hk, ?_⟩
        rwa [hupdate, Function.update_self]
    · have hne : k' ≠ k := by
        rintro rfl
        exact hk' n (Nat.lt_succ_self n) hk
      rw [hupdate, Function.update_of_ne hne]
      exact hkept k' fun i hi => hk' i (Nat.lt_succ_of_lt hi)

/-- **The loop over the active variables** of an array. -/
theorem mapActive_run {active active' : Nat → MapEntry}
    (h : m.mapActive m.view active d = some active') :
    (∀ i < m.view.num d, ∃ k, m.indexToActiveIndex d i = some k ∧
      m.ActiveEntry d i (active' k)) ∧
      ∀ k, (∀ i < m.view.num d, m.indexToActiveIndex d i ≠ some k) → active' k = active k := by
  obtain ⟨s, hs, rfl⟩ := Option.map_eq_some_iff.mp h
  exact (mapActive_steps hs).2

/-- The loops over several arrays, one after the other. -/
theorem mapActive_all {ds : List VarDomain} (hds : ds.Nodup) {active active' : Nat → MapEntry}
    (h : ds.foldlM (m.mapActive m.view) active = some active') :
    (∀ d ∈ ds, ∀ i < m.view.num d, ∃ k, m.indexToActiveIndex d i = some k ∧
      m.ActiveEntry d i (active' k)) ∧
      ∀ k, (∀ d ∈ ds, ∀ i < m.view.num d, m.indexToActiveIndex d i ≠ some k) →
        active' k = active k := by
  induction ds generalizing active with
  | nil =>
    cases h
    exact ⟨fun d hd => absurd hd List.not_mem_nil, fun k _ => rfl⟩
  | cons d ds ih =>
    rw [List.foldlM_cons, Option.bind_eq_bind, Option.bind_eq_some_iff] at h
    obtain ⟨active₁, h₁, h⟩ := h
    obtain ⟨hnotMem, hds⟩ := List.nodup_cons.mp hds
    obtain ⟨hentries, hkept⟩ := mapActive_run h₁
    obtain ⟨hrest, hkept'⟩ := ih hds h
    constructor
    · intro e he i hi
      rcases List.mem_cons.mp he with rfl | he
      · obtain ⟨k, hk, hentry⟩ := hentries i hi
        refine ⟨k, hk, ?_⟩
        rw [hkept' k]
        · exact hentry
        · intro e' he' j _ hj
          obtain ⟨rfl, -⟩ := indexToActiveIndex_injective hk hj
          exact hnotMem he'
      · exact hrest e he i hi
    · intro k hk
      rw [hkept' k fun e he => hk e (List.mem_cons_of_mem d he)]
      exact hkept k (hk d List.mem_cons_self)

/-! ## The loop over the complement -/

theorem complementIndexToDomainIndex_lt (hij : i < j) {a b : Nat}
    (ha : m.complementIndexToDomainIndex d i = some a)
    (hb : m.complementIndexToDomainIndex d j = some b) : a < b := by
  by_cases hd : d = .div
  · subst hd
    change m.spec.svd.cdivIndexToAdivIndex _ _ = _ at ha hb
    simp only [SharedVariablesData.cdivIndexToAdivIndex, Option.bind_eq_bind,
      Option.bind_eq_some_iff] at ha hb
    obtain ⟨num, hnum, ha⟩ := ha
    obtain ⟨num', hnum', hb⟩ := hb
    obtain rfl := Option.some.inj (hnum.symm.trans hnum')
    rw [SharedVariablesData.searchBlocks_zero] at ha hb
    exact SharedVariablesData.findIdxs_increasing hij ha hb
  · unfold complementIndexToDomainIndex at ha hb
    rw [VariablesSpec.complementIndexToDomainIndex_positions hd] at ha hb
    exact SharedVariablesData.findIdxs_increasing hij ha hb

theorem complementDefault_eq_some {t : VarType} : m.complementDefault d i = some t ↔
    ∃ p, m.complementIndexToDomainIndex d i = some p ∧ (m.spec.types d)[p]? = some t :=
  Option.bind_eq_some_iff

theorem grouped_complementDefault : Grouped (passed (m.complementDefault d) n) := by
  apply grouped_passed VarType.code_injective
  intro i j s t hij hs ht
  obtain ⟨p, hp, hs⟩ := complementDefault_eq_some.mp hs
  obtain ⟨p', hp', ht⟩ := complementDefault_eq_some.mp ht
  exact code_le (complementIndexToDomainIndex_lt hij hp hp') hs ht

/-- An entry of a complement variable. -/
structure ComplementEntry (m : NestedVariables) (d : VarDomain) (i : Nat) (q : Nat) : Prop where
  entry : ∃ t, m.complementDefault d i = some t ∧ t ∈ m.sub.types d ∧
    (passed (m.complementDefault d) i).count t < (m.sub.types d).count t ∧
    q = (m.sub.types d).idxOf t + (passed (m.complementDefault d) i).count t

theorem mapComplementStep_eq_some {s s' : List Nat × TypeCounter}
    (hc : s.2.Counts (m.sub.types d) (passed (m.complementDefault d) i))
    (h : m.mapComplementStep d s i = some s') :
    ∃ q, m.ComplementEntry d i q ∧ s'.1 = s.1 ++ [q] ∧
      s'.2.Counts (m.sub.types d) (passed (m.complementDefault d) (i + 1)) := by
  simp only [mapComplementStep, Option.bind_eq_bind, Option.bind_eq_some_iff] at h
  obtain ⟨p, hp, t, ht, ⟨q, c⟩, hq, h⟩ := h
  cases h
  have hdefault : m.complementDefault d i = some t := complementDefault_eq_some.mpr ⟨p, hp, ht⟩
  have hpassed : passed (m.complementDefault d) (i + 1) =
      passed (m.complementDefault d) i ++ [t] := by
    rw [passed_succ, hdefault]
    rfl
  obtain ⟨hmem, hlt, rfl, hc'⟩ :=
    defaultIndex_eq_some hc (hpassed ▸ grouped_complementDefault) hq
  exact ⟨_, ⟨⟨t, hdefault, hmem, hlt, rfl⟩⟩, rfl, hpassed ▸ hc'⟩

theorem mapComplement_steps {s : List Nat × TypeCounter}
    (h : (List.range n).foldlM (m.mapComplementStep d) ([], .init) = some s) :
    s.2.Counts (m.sub.types d) (passed (m.complementDefault d) n) ∧ s.1.length = n ∧
      ∀ i < n, ∃ q, s.1[i]? = some q ∧ m.ComplementEntry d i q := by
  induction n generalizing s with
  | zero =>
    cases h
    exact ⟨TypeCounter.counts_init, rfl, fun i hi => absurd hi (Nat.not_lt_zero i)⟩
  | succ n ih =>
    rw [List.range_succ, List.foldlM_append, Option.bind_eq_bind,
      Option.bind_eq_some_iff] at h
    obtain ⟨s₀, hs₀, h⟩ := h
    obtain ⟨hc, hlen, hentries⟩ := ih hs₀
    simp only [List.foldlM_cons, List.foldlM_nil, bind_pure] at h
    obtain ⟨q, hq, happend, hc'⟩ := mapComplementStep_eq_some hc h
    refine ⟨hc', by rw [happend, List.length_append, hlen]; rfl, fun i hi => ?_⟩
    rw [happend]
    rcases Nat.lt_succ_iff_lt_or_eq.mp hi with hi | rfl
    · rw [List.getElem?_append_left (by rwa [hlen])]
      exact hentries i hi
    · refine ⟨q, ?_, hq⟩
      rw [← hlen, List.getElem?_concat_length]

/-- **The loop over the complement** of an array. -/
theorem mapComplement_run {view : StartCounts} {l : List Nat}
    (h : m.mapComplement view d = some l) : m.numComplement view d = some l.length ∧
      ∀ i < l.length, ∃ q, l[i]? = some q ∧ m.ComplementEntry d i q := by
  simp only [mapComplement, Option.bind_eq_bind, Option.bind_eq_some_iff] at h
  obtain ⟨n, hn, h⟩ := h
  obtain ⟨s, hs, rfl⟩ := Option.map_eq_some_iff.mp h
  obtain ⟨-, rfl, hentries⟩ := mapComplement_steps hs
  exact ⟨hn, hentries⟩

/-! ## The constructor -/

theorem length_complementPositions (d : VarDomain) : m.view.num d +
    (m.spec.complementPositions d).length = (m.spec.types d).length := by
  obtain ⟨rest, hrest⟩ := VariablesSpec.types_isActive m.spec d
  have hlen := congrArg List.length hrest
  have hcount := congrArg (List.countP fun b => !b) hrest
  rw [List.countP_map] at hcount
  rw [VariablesSpec.complementPositions, List.length_findIdxs]
  simp only [List.length_map, List.length_append, List.length_replicate, List.countP_append,
    List.countP_replicate, Bool.not_false, Bool.not_true, if_true, Bool.false_eq_true,
    if_false] at hlen hcount
  change m.view.num d + (m.spec.types d).countP ((fun b => !b) ∘ m.spec.isActive) = _
  rw [hcount, hlen]
  change m.view.num d + (m.view.start d + 0 + rest) = m.view.start d + m.view.num d + rest
  omega

theorem numComplement_view (d : VarDomain) :
    m.numComplement m.view d = some (m.spec.complementPositions d).length := by
  have hlen := length_complementPositions (m := m) d
  rw [numComplement, SharedVariablesData.allCounts_eq, Option.bind_eq_bind, Option.bind_some]
  change sizeSub (m.spec.svd.slots.count d) _ = _
  rw [← VariablesSpec.length_types, SharedVariablesData.sizeSub_of_le (by omega)]
  congr 1
  omega

/-- An accepted specification has the slice of its groups: where the view of all variables leaves
relaxed variables out, the search for their complement index fails. -/
theorem startCounts_eq {view : StartCounts} {l : List Nat} (hview : m.startCounts = some view)
    (h : m.mapComplement view .cv = some l) : view = m.view := by
  unfold startCounts at hview
  unfold NestedVariables.view
  cases hv : m.spec.view with
  | emptyView => exact absurd hv m.spec.view_ne
  | mixed s =>
    rw [hv, SharedVariablesData.viewStartCounts_mixed (m.spec.not_relaxed s hv)] at hview
    rw [← Option.some.inj hview]
    simp only [VariablesSpec.subset, hv]
  | relaxed s =>
    have hsubset : m.spec.subset = s := by simp only [VariablesSpec.subset, hv]
    rw [hsubset]
    rw [hv] at hview
    by_cases hs : s = .all
    · subst hs
      have hnil : m.spec.complementPositions .cv = [] := by
        rw [← List.length_eq_zero_iff, VariablesSpec.complementPositions, List.length_findIdxs,
          List.countP_eq_zero]
        intro t _
        unfold VariablesSpec.isActive
        rw [hsubset]
        cases t.group <;> decide
      obtain ⟨hn, hentries⟩ := mapComplement_run h
      have hlen : l.length = 0 := by
        by_contra hne
        obtain ⟨q, -, ⟨t, ht, -⟩⟩ := hentries 0 (Nat.pos_of_ne_zero hne)
        obtain ⟨p, hp, -⟩ := complementDefault_eq_some.mp ht
        unfold complementIndexToDomainIndex at hp
        rw [VariablesSpec.complementIndexToDomainIndex_positions (by decide), hnil] at hp
        cases hp
      rw [hlen, numComplement, SharedVariablesData.allCounts_eq, Option.bind_eq_bind,
        Option.bind_some, sizeSub] at hn
      have hcv : view.num .cv = m.spec.svd.slots.count .cv := by
        change (if _ ≤ m.spec.svd.slots.count .cv then some (m.spec.svd.slots.count .cv - _)
          else none) = _ at hn
        split at hn
        · rename_i hle
          have hzero := Option.some.inj hn
          omega
        · cases hn
      have hwithin := SharedVariablesData.relaxedWithin_of_relaxedAll hview hcv
      have heq := SharedVariablesData.relaxedAllStartCounts_eq hwithin
      exact Option.some.inj (hview.symm.trans heq)
    · rw [SharedVariablesData.viewStartCounts_relaxed hs] at hview
      exact (Option.some.inj hview).symm

/-- The maps of an accepted specification. -/
structure Constructed (m : NestedVariables) (maps : VarMaps) : Prop where
  startCounts_eq : m.startCounts = some m.view
  active : ∀ (d : VarDomain), ∀ i < m.view.num d, ∃ k, m.indexToActiveIndex d i = some k ∧
    m.ActiveEntry d i (maps.active k)
  length_complement : ∀ d, (maps.complement d).length = (m.spec.complementPositions d).length
  complement : ∀ (d : VarDomain), ∀ i < (m.spec.complementPositions d).length,
    ∃ q, (maps.complement d)[i]? = some q ∧ m.ComplementEntry d i q

/-- **The maps of the constructor.** -/
theorem construct_eq_some {maps : VarMaps} (h : m.construct = some maps) : m.Constructed maps := by
  simp only [construct, Option.bind_eq_bind, Option.bind_eq_some_iff] at h
  obtain ⟨view, hview, h⟩ := h
  split at h
  · cases h
  obtain ⟨active, hactive, h⟩ := Option.bind_eq_some_iff.mp h
  obtain ⟨ccv, hccv, h⟩ := Option.bind_eq_some_iff.mp h
  obtain ⟨cdiv, hcdiv, h⟩ := Option.bind_eq_some_iff.mp h
  obtain ⟨cdsv, hcdsv, h⟩ := Option.bind_eq_some_iff.mp h
  obtain ⟨cdrv, hcdrv, h⟩ := Option.bind_eq_some_iff.mp h
  cases h
  obtain rfl := startCounts_eq hview hccv
  have hrun {d : VarDomain} {l : List Nat} (hl : m.mapComplement m.view d = some l) :
      l.length = (m.spec.complementPositions d).length ∧
        ∀ i < (m.spec.complementPositions d).length,
          ∃ q, l[i]? = some q ∧ m.ComplementEntry d i q := by
    obtain ⟨hn, hentries⟩ := mapComplement_run hl
    have hlen := Option.some.inj ((numComplement_view d).symm.trans hn)
    rw [hlen]
    exact ⟨rfl, hentries⟩
  refine ⟨hview, fun d => (mapActive_all (by decide) hactive).1 d (by cases d <;> decide),
    fun d => ?_, fun d => ?_⟩
  · cases d
    exacts [(hrun hccv).1, (hrun hcdiv).1, (hrun hcdsv).1, (hrun hcdrv).1]
  · cases d
    exacts [(hrun hccv).2, (hrun hcdiv).2, (hrun hcdsv).2, (hrun hcdrv).2]

end NestedVariables

end Dakota
