import Dakota.Nested.MapRuns

/-!
# Insertion and derivatives

Whether `update_sub_model` and the derivative variables of `set_mapping` lead to the same variables
of the sub-model.

* `update_sub_model` looks an entry up by the index among all active variables,
  `set_mapping` by the index among the active continuous ones. So the two agree only if these come
  first (`Mappable.continuousFirst`).
* `addresses_iff`: the other conditions are that a label names a variable of the same array, that the
  map of complement indices of discrete int variables is right, and that the variables of a type
  stand together in the sub-model.
-/

namespace Dakota

open Outcome

namespace NestedVariables

variable (m : NestedVariables)

/-- A variable with a default mapping: an active one without a label, or one of the complement. -/
def IsDefault (d : VarDomain) (p : Nat) : Prop :=
  p ∈ m.spec.complementPositions d ∨
    ∃ i < m.view.num d, p = m.view.start d + i ∧ m.label d i = ""

/-- `continuous_variable_ids` -/
def continuousIds : List Nat := activeView m.view .cv (m.spec.svd.allIds .cv)

/-- The variable at `p` is inserted into the variable at `q` of the sub-model, and nowhere else. -/
def InsertedAt (ins : List Insertion) (d : VarDomain) (p q : Nat) : Prop :=
  ∀ q', ⟨d, p, q'⟩ ∈ ins ↔ q' = q

/-- The variables of a specification are inserted into variables of the same type, distinct ones in
order, and derivatives are asked for with respect to the variables that are inserted into. -/
structure Addresses (maps : VarMaps) (ins : List Insertion) : Prop where
  sameType : ∀ (d : VarDomain) (p : Nat), m.IsDefault d p → ∃ q t, InsertedAt ins d p q ∧
    (m.spec.types d)[p]? = some t ∧ (m.sub.types d)[q]? = some t
  inOrder : ∀ (d : VarDomain) {p p' q q' : Nat}, m.IsDefault d p → m.IsDefault d p' → p < p' →
    InsertedAt ins d p q → InsertedAt ins d p' q' →
    q ≠ q' ∧ ((m.spec.types d)[p]? = (m.spec.types d)[p']? → q < q')
  derivatives : ∀ mappedDvv : List Nat, (∀ id ∈ mappedDvv, id ∈ m.continuousIds) →
    ∃ dvv, m.subIteratorDvv maps mappedDvv = some dvv ∧
      List.Forall₂ (fun id subId => ∃ p q, (m.spec.svd.allIds .cv)[p]? = some id ∧
        InsertedAt ins .cv p q ∧ m.sub.allContinuousIds[q]? = some subId) mappedDvv dvv

/-- The array of the sub-model that a label is found in. -/
def labelDomain (label : String) : Option VarDomain :=
  VarDomain.all.find? fun d => label ∈ m.sub.labels d

/-- The type of a complement variable. -/
def complementType (d : VarDomain) (i : Nat) : Option VarType :=
  (m.spec.complementPositions d)[i]?.bind fun p => (m.spec.types d)[p]?

/-- The number of default mappings of a type. -/
def defaultCount (d : VarDomain) (t : VarType) : Nat :=
  (passed (m.activeDefault d) (m.view.num d)).count t +
    (passed (m.complementType d) (m.spec.complementPositions d).length).count t

/-- A specification whose variables are addressed alike by the two ways. -/
structure Mappable : Prop where
  sameDomain : ∀ (d : VarDomain), ∀ i < m.view.num d, m.label d i ≠ "" →
    m.labelDomain (m.label d i) = some d
  complementInt : ∀ i < (m.spec.complementPositions .div).length,
    m.complementIndexToDomainIndex .div i = (m.spec.complementPositions .div)[i]?
  consecutive : ∀ (d : VarDomain) (t : VarType), ∀ r < m.defaultCount d t,
    (m.sub.types d)[(m.sub.types d).idxOf t + r]? = some t
  continuousFirst : ∀ i < m.view.num .cv, m.indexToActiveIndex .cv i = some i

variable {m} {d e : VarDomain} {i j k p q r : Nat} {t : VarType} {maps : VarMaps}
  {ins : List Insertion}

/-! ## Entries -/

theorem target_only : (MapEntry.only d q).target = some (d, q) := by
  cases d <;> rfl

theorem only_injective (h : MapEntry.only d q = MapEntry.only e r) : d = e ∧ q = r := by
  have htarget := congrArg MapEntry.target h
  rw [target_only, target_only] at htarget
  exact Prod.mk.inj (Option.some.inj htarget)

/-- A label leads to one array. -/
theorem resolveMap1_eq_some {label : String} {entry : MapEntry}
    (h : m.sub.resolveMap1 label = some entry) : ∃ e q, m.labelDomain label = some e ∧
      (m.sub.labels e).idxOf? label = some q ∧ entry = MapEntry.only e q := by
  obtain ⟨e, q, hfind, hq, hentry⟩ := findSome?_map_eq_some h
  refine ⟨e, q, ?_, hq, hentry⟩
  rw [← hfind]
  unfold labelDomain
  congr 1
  funext d
  rw [Bool.eq_iff_iff, decide_eq_true_eq, List.isSome_idxOf?]

/-- An entry of an active variable leads to one array, at an index in range. -/
theorem ActiveEntry.eq_only {entry : MapEntry} (h : m.ActiveEntry d i entry) :
    ∃ e q, entry = MapEntry.only e q ∧ q < (m.sub.types e).length ∧
      (m.label d i = "" → e = d) ∧ (m.label d i ≠ "" → m.labelDomain (m.label d i) = some e) := by
  by_cases hlabel : m.label d i = ""
  · obtain ⟨t, -, hmem, hlt, rfl⟩ := h.default hlabel
    have hle := List.idxOf_add_count_le hmem
    exact ⟨d, _, rfl, by omega, fun _ => rfl, fun hne => absurd hlabel hne⟩
  · obtain ⟨e, q, hdomain, hq, rfl⟩ := resolveMap1_eq_some (h.labelled hlabel)
    refine ⟨e, q, rfl, ?_, fun heq => absurd heq hlabel, fun _ => hdomain⟩
    obtain ⟨hmem, rfl⟩ := List.idxOf?_eq_some.mp hq
    rw [← m.sub.labels_length]
    exact List.idxOf_lt_length_iff.mpr hmem

/-- The entry of an active variable leads to `q` in its own array. -/
def HasEntry (m : NestedVariables) (maps : VarMaps) (d : VarDomain) (i q : Nat) : Prop :=
  ∃ k, m.indexToActiveIndex d i = some k ∧ maps.active k = MapEntry.only d q

/-- The entry of a complement variable leads from `p` to `q`. -/
def HasComplementEntry (m : NestedVariables) (maps : VarMaps) (d : VarDomain) (i p q : Nat) :
    Prop :=
  m.complementIndexToDomainIndex d i = some p ∧ (maps.complement d)[i]? = some q

theorem HasEntry.unique (h : m.HasEntry maps d i q) (h' : m.HasEntry maps d i r) : q = r := by
  obtain ⟨k, hk, hq⟩ := h
  obtain ⟨k', hk', hr⟩ := h'
  obtain rfl := Option.some.inj (hk.symm.trans hk')
  exact (only_injective (hq.symm.trans hr)).2

/-- The entries of the active variables. -/
theorem Constructed.entry (hc : m.Constructed maps) (hi : i < m.view.num d) :
    ∃ k e q, m.indexToActiveIndex d i = some k ∧ maps.active k = MapEntry.only e q ∧
      q < (m.sub.types e).length ∧ (m.label d i = "" → e = d) ∧
      (m.label d i ≠ "" → m.labelDomain (m.label d i) = some e) := by
  obtain ⟨k, hk, hentry⟩ := hc.active d i hi
  obtain ⟨e, q, h⟩ := hentry.eq_only
  exact ⟨k, e, q, hk, h⟩

/-- The position that a default mapping of an active variable leads to. -/
theorem Constructed.default (hc : m.Constructed maps) (hi : i < m.view.num d)
    (hlabel : m.label d i = "") : ∃ t, m.activeDefault d i = some t ∧ m.HasEntry maps d i
      ((m.sub.types d).idxOf t + (passed (m.activeDefault d) i).count t) := by
  obtain ⟨k, hk, hentry⟩ := hc.active d i hi
  obtain ⟨t, ht, -, -, honly⟩ := hentry.default hlabel
  refine ⟨t, ?_, k, hk, honly⟩
  rw [activeDefault, if_pos hlabel, ht]

/-- The position that a complement variable is inserted into. -/
theorem Constructed.complementDefault (hc : m.Constructed maps)
    (hi : i < (m.spec.complementPositions d).length) : ∃ p t,
      m.complementDefault d i = some t ∧ (m.spec.types d)[p]? = some t ∧
      m.HasComplementEntry maps d i p
        ((m.sub.types d).idxOf t + (passed (m.complementDefault d) i).count t) := by
  obtain ⟨q, hq, ⟨t, ht, -, -, rfl⟩⟩ := hc.complement d i hi
  obtain ⟨p, hp, hpt⟩ := complementDefault_eq_some.mp ht
  exact ⟨p, t, ht, hpt, hp, hq⟩

/-! ## The insertions -/

theorem activeInsertion_eq (hk : m.indexToActiveIndex d i = some k)
    (hentry : maps.active k = MapEntry.only e q) :
    m.activeInsertion m.view maps d i =
      if e = d then some [⟨d, m.view.start d + i, q⟩] else none := by
  rw [activeInsertion, hk, Option.bind_eq_bind, Option.bind_some, hentry, target_only]
  rfl

theorem complementInsertion_eq (h : m.HasComplementEntry maps d i p q) :
    m.complementInsertion maps d i = some [⟨d, p, q⟩] := by
  obtain ⟨hp, hq⟩ := h
  rw [complementInsertion, hp, hq]
  rfl

/-- The values that are written, if every active variable has an entry in its own array. -/
theorem updateSubModel_iff (hc : m.Constructed maps) : (∃ ins, m.updateSubModel maps = some ins) ↔
    ∀ (d : VarDomain), ∀ i < m.view.num d, ∃ q, m.HasEntry maps d i q := by
  constructor
  · rintro ⟨ins, h⟩ d i hi
    simp only [updateSubModel, hc.startCounts_eq, Option.bind_eq_bind, Option.bind_some,
      Option.bind_eq_some_iff] at h
    obtain ⟨active, hactive, -⟩ := h
    obtain ⟨bs, hbs⟩ := exists_of_mapM hactive (a := d) (by cases d <;> decide)
    obtain ⟨b, hb⟩ := exists_of_mapM hbs (List.mem_range.mpr hi)
    obtain ⟨k, e, q, hk, hentry, -⟩ := hc.entry hi
    rw [activeInsertion_eq hk hentry] at hb
    split at hb
    · rename_i he
      subst he
      exact ⟨q, k, hk, hentry⟩
    · cases hb
  · intro h
    have hactive : ∀ d ∈ VarDomain.all, ∃ bs,
        (List.range (m.view.num d)).mapM (m.activeInsertion m.view maps d) = some bs := by
      intro d _
      refine exists_mapM fun i hi => ?_
      obtain ⟨q, k, hk, hentry⟩ := h d i (List.mem_range.mp hi)
      exact ⟨_, (activeInsertion_eq hk hentry).trans (if_pos rfl)⟩
    have hcomplement : ∀ d ∈ VarDomain.all, ∃ bs, (m.numComplement m.view d).bind (fun n =>
        (List.range n).mapM (m.complementInsertion maps d)) = some bs := by
      intro d _
      rw [numComplement_view, Option.bind_some]
      refine exists_mapM fun i hi => ?_
      obtain ⟨p, t, -, -, hentry⟩ := hc.complementDefault (List.mem_range.mp hi)
      exact ⟨_, complementInsertion_eq hentry⟩
    obtain ⟨active, hactive⟩ := exists_mapM hactive
    obtain ⟨complement, hcomplement⟩ := exists_mapM hcomplement
    refine ⟨active.flatten.flatten ++ complement.flatten.flatten, ?_⟩
    simp only [updateSubModel, hc.startCounts_eq, Option.bind_eq_bind, Option.bind_some, hactive,
      hcomplement]
    rfl

theorem mem_updateSubModel (hc : m.Constructed maps) (h : m.updateSubModel maps = some ins)
    {x : Insertion} : x ∈ ins ↔
      (∃ i < m.view.num x.domain, x.source = m.view.start x.domain + i ∧
        m.HasEntry maps x.domain i x.target) ∨
      ∃ i < (m.spec.complementPositions x.domain).length,
        m.HasComplementEntry maps x.domain i x.source x.target := by
  have hentries := (updateSubModel_iff hc).mp ⟨ins, h⟩
  simp only [updateSubModel, hc.startCounts_eq, Option.bind_eq_bind, Option.bind_some,
    Option.bind_eq_some_iff] at h
  obtain ⟨active, hactive, complement, hcomplement, h⟩ := h
  cases h
  rw [List.mem_append]
  refine or_congr ?_ ?_
  · constructor
    · intro hx
      obtain ⟨b, hb, hx⟩ := List.mem_flatten.mp hx
      obtain ⟨d, -, bs, hbs, hb⟩ := (mem_flatten_of_mapM hactive).mp hb
      obtain ⟨i, hi, hib⟩ := (mem_of_mapM hbs).mp hb
      rw [List.mem_range] at hi
      obtain ⟨q, k, hk, hentry⟩ := hentries d i hi
      rw [activeInsertion_eq hk hentry, if_pos rfl] at hib
      cases hib
      obtain rfl := List.mem_singleton.mp hx
      exact ⟨i, hi, rfl, k, hk, hentry⟩
    · rintro ⟨i, hi, hsource, k, hk, hentry⟩
      obtain ⟨bs, hbs⟩ := exists_of_mapM hactive (a := x.domain) (by cases x.domain <;> decide)
      have hb := (activeInsertion_eq hk hentry).trans (if_pos rfl)
      refine List.mem_flatten.mpr ⟨_, (mem_flatten_of_mapM hactive).mpr
        ⟨x.domain, by cases x.domain <;> decide, bs, hbs, (mem_of_mapM hbs).mpr
          ⟨i, List.mem_range.mpr hi, hb⟩⟩, ?_⟩
      rw [List.mem_singleton, ← hsource]
  · constructor
    · intro hx
      obtain ⟨b, hb, hx⟩ := List.mem_flatten.mp hx
      obtain ⟨d, -, bs, hbs, hb⟩ := (mem_flatten_of_mapM hcomplement).mp hb
      rw [numComplement_view, Option.bind_some] at hbs
      obtain ⟨i, hi, hib⟩ := (mem_of_mapM hbs).mp hb
      rw [List.mem_range] at hi
      obtain ⟨p, t, -, -, hentry⟩ := hc.complementDefault hi
      rw [complementInsertion_eq hentry] at hib
      cases hib
      obtain rfl := List.mem_singleton.mp hx
      exact ⟨i, hi, hentry⟩
    · rintro ⟨i, hi, hentry⟩
      obtain ⟨bs, hbs⟩ := exists_of_mapM hcomplement (a := x.domain)
        (by cases x.domain <;> decide)
      have hbs' := hbs
      rw [numComplement_view, Option.bind_some] at hbs'
      refine List.mem_flatten.mpr ⟨_, (mem_flatten_of_mapM hcomplement).mpr
        ⟨x.domain, by cases x.domain <;> decide, bs, hbs, (mem_of_mapM hbs').mpr
          ⟨i, List.mem_range.mpr hi, complementInsertion_eq hentry⟩⟩, ?_⟩
      exact List.mem_singleton_self x

/-! ## Active and complement positions -/

/-- The active variables stand in the slice. -/
theorem isActive_iff (ht : (m.spec.types d)[p]? = some t) :
    m.spec.isActive t ↔ m.view.start d ≤ p ∧ p < m.view.start d + m.view.num d := by
  obtain ⟨rest, hrest⟩ := VariablesSpec.types_isActive m.spec d
  have hget := congrArg (·[p]?) hrest
  simp only [List.getElem?_map, ht, Option.map_some] at hget
  change some _ = (List.replicate (m.view.start d) false ++ List.replicate (m.view.num d) true ++
    List.replicate rest false)[p]? at hget
  rcases Nat.lt_or_ge p (m.view.start d) with hlt | hge
  · rw [List.append_assoc, List.getElem?_append_left (by simpa using hlt),
      List.getElem?_replicate_of_lt hlt] at hget
    simp [Option.some.inj hget, Nat.not_le.mpr hlt]
  · rcases Nat.lt_or_ge p (m.view.start d + m.view.num d) with hlt' | hge'
    · rw [List.append_assoc, List.getElem?_append_right (by simpa using hge),
        List.getElem?_append_left (by simp; omega), List.length_replicate,
        List.getElem?_replicate_of_lt (by omega)] at hget
      simp [Option.some.inj hget, hge, hlt']
    · rw [List.getElem?_append_right (by simp; omega)] at hget
      obtain ⟨_, hfalse⟩ := List.getElem?_eq_some_iff.mp hget.symm
      rw [List.getElem_replicate] at hfalse
      simp [← hfalse, Nat.not_lt.mpr hge']

theorem mem_complementPositions : p ∈ m.spec.complementPositions d ↔
    ∃ t, (m.spec.types d)[p]? = some t ∧ m.spec.isActive t = false := by
  rw [VariablesSpec.complementPositions, List.mem_findIdxs_iff_exists_getElem_pos]
  constructor
  · rintro ⟨hp, h⟩
    exact ⟨_, List.getElem?_eq_getElem hp, by simpa using h⟩
  · rintro ⟨t, ht, h⟩
    obtain ⟨hp, rfl⟩ := List.getElem?_eq_some_iff.mp ht
    exact ⟨hp, by simpa using h⟩

theorem exists_type (hi : i < m.view.num d) :
    ∃ t, (m.spec.types d)[m.view.start d + i]? = some t ∧ m.spec.isActive t := by
  have hlen := congrArg List.length
    (VariablesSpec.types_isActive m.spec d).choose_spec
  simp only [List.length_map, List.length_append, List.length_replicate] at hlen
  change _ = m.view.start d + m.view.num d + _ at hlen
  have hlt : m.view.start d + i < (m.spec.types d).length := by omega
  refine ⟨_, List.getElem?_eq_getElem hlt, ?_⟩
  exact (isActive_iff (List.getElem?_eq_getElem hlt)).mpr ⟨by omega, by omega⟩

/-- No active variable is in the complement. -/
theorem start_add_notMem (hi : i < m.view.num d) :
    m.view.start d + i ∉ m.spec.complementPositions d := by
  intro h
  obtain ⟨t, ht, hfalse⟩ := mem_complementPositions.mp h
  obtain ⟨t', ht', htrue⟩ := exists_type hi
  obtain rfl := Option.some.inj (ht.symm.trans ht')
  rw [hfalse] at htrue
  cases htrue

/-- The maps of complement indices are positions of the complement. -/
def ComplementPositions (m : NestedVariables) (d : VarDomain) : Prop :=
  ∀ i < (m.spec.complementPositions d).length,
    m.complementIndexToDomainIndex d i = (m.spec.complementPositions d)[i]?

theorem complementPositions_of_ne (hd : d ≠ .div) : m.ComplementPositions d :=
  fun i _ => VariablesSpec.complementIndexToDomainIndex_positions hd i

theorem Mappable.complementPositions (h : m.Mappable) (d : VarDomain) : m.ComplementPositions d := by
  by_cases hd : d = .div
  · subst hd
    exact h.complementInt
  · exact complementPositions_of_ne hd

theorem ComplementPositions.passed_eq (h : m.ComplementPositions d) {n : Nat}
    (hn : n ≤ (m.spec.complementPositions d).length) :
    passed (m.complementDefault d) n = passed (m.complementType d) n :=
  passed_congr fun i hi => by
    rw [NestedVariables.complementDefault, h i (Nat.lt_of_lt_of_le hi hn)]
    rfl

/-- Of a type there are only active or only complement variables. -/
theorem count_complementType (ht : m.spec.isActive t) (n : Nat) :
    (passed (m.complementType d) n).count t = 0 := by
  rw [List.count_eq_zero]
  intro hmem
  obtain ⟨i, -, hi⟩ := List.mem_filterMap.mp hmem
  obtain ⟨p, hp, hpt⟩ := Option.bind_eq_some_iff.mp hi
  obtain ⟨t', ht', hfalse⟩ := mem_complementPositions.mp (List.mem_of_getElem? hp)
  obtain rfl := Option.some.inj (hpt.symm.trans ht')
  rw [ht] at hfalse
  cases hfalse

theorem count_activeDefault (ht : m.spec.isActive t = false) (n : Nat) :
    (passed (m.activeDefault d) n).count t = 0 := by
  rw [List.count_eq_zero]
  intro hmem
  obtain ⟨i, -, hi⟩ := List.mem_filterMap.mp hmem
  obtain ⟨-, hlt, hit⟩ := activeDefault_eq_some.mp hi
  obtain ⟨t', ht', htrue⟩ := exists_type hlt
  obtain rfl := Option.some.inj (hit.symm.trans ht')
  rw [ht] at htrue
  cases htrue

/-! ## Where a variable is inserted -/

theorem insertedAt_unique (h : InsertedAt ins d p q) (h' : InsertedAt ins d p r) : q = r :=
  (h' q).mp ((h q).mpr rfl)

/-- An active variable is inserted where its entry leads to. -/
theorem insertedAt_active (hc : m.Constructed maps) (hins : m.updateSubModel maps = some ins)
    (hcomplement : m.ComplementPositions d) (hi : i < m.view.num d) (h : m.HasEntry maps d i q) :
    InsertedAt ins d (m.view.start d + i) q := by
  intro q'
  rw [mem_updateSubModel hc hins]
  constructor
  · rintro (⟨j, -, hsource, hentry⟩ | ⟨j, hj, hp, -⟩)
    · obtain rfl : i = j := Nat.add_left_cancel hsource
      exact hentry.unique h
    · rw [hcomplement j hj] at hp
      exact absurd (List.mem_of_getElem? hp) (start_add_notMem hi)
  · rintro rfl
    exact .inl ⟨i, hi, rfl, h⟩

/-- A complement variable is inserted where its entry leads to. -/
theorem insertedAt_complement (hc : m.Constructed maps) (hins : m.updateSubModel maps = some ins)
    (hcomplement : m.ComplementPositions d) (hi : i < (m.spec.complementPositions d).length)
    (h : m.HasComplementEntry maps d i p q) : InsertedAt ins d p q := by
  intro q'
  rw [mem_updateSubModel hc hins]
  constructor
  · rintro (⟨j, hj, hsource, -⟩ | ⟨j, hj, hp, hq⟩)
    · have hp := h.1
      rw [hcomplement i hi] at hp
      obtain rfl : p = m.view.start d + j := hsource
      exact absurd (List.mem_of_getElem? hp) (start_add_notMem hj)
    · obtain rfl : i = j := by
        rcases Nat.lt_trichotomy i j with hij | hij | hij
        · exact absurd (complementIndexToDomainIndex_lt hij h.1 hp) (Nat.lt_irrefl p)
        · exact hij
        · exact absurd (complementIndexToDomainIndex_lt hij hp h.1) (Nat.lt_irrefl p)
      exact Option.some.inj (hq.symm.trans h.2)
  · rintro rfl
    exact .inr ⟨i, hi, h⟩

/-- The number of an active variable among the default mappings of its type. -/
theorem count_active_lt (hi : i < m.view.num d) (h : m.activeDefault d i = some t) :
    (passed (m.activeDefault d) i).count t < m.defaultCount d t :=
  Nat.lt_of_lt_of_le (count_passed_lt hi h) (Nat.le_add_right _ _)

theorem count_complement_lt (hi : i < (m.spec.complementPositions d).length)
    (h : m.complementType d i = some t) :
    (passed (m.complementType d) i).count t < m.defaultCount d t :=
  Nat.lt_of_lt_of_le (count_passed_lt hi h) (Nat.le_add_left _ _)

/-- The number of a variable among the default mappings of its type. -/
inductive DefaultNumber (m : NestedVariables) (d : VarDomain) : Nat → VarType → Nat → Prop where
  | active {i : Nat} {t : VarType} (hi : i < m.view.num d) (ht : m.activeDefault d i = some t) :
    DefaultNumber m d (m.view.start d + i) t ((passed (m.activeDefault d) i).count t)
  | complement {i p : Nat} {t : VarType} (hp : (m.spec.complementPositions d)[i]? = some p)
    (ht : m.complementType d i = some t) :
    DefaultNumber m d p t ((passed (m.complementType d) i).count t)

theorem DefaultNumber.isActive (h : m.DefaultNumber d p t r) :
    m.spec.isActive t ↔ p ∉ m.spec.complementPositions d := by
  cases h with
  | active hi ht =>
    obtain ⟨t', ht', htrue⟩ := exists_type hi
    obtain rfl := Option.some.inj (ht'.symm.trans (activeDefault_eq_some.mp ht).2.2)
    exact ⟨fun _ => start_add_notMem hi, fun _ => htrue⟩
  | complement hp ht =>
    obtain ⟨t', ht', hfalse⟩ := mem_complementPositions.mp (List.mem_of_getElem? hp)
    rw [complementType, hp, Option.bind_some] at ht
    obtain rfl := Option.some.inj (ht'.symm.trans ht)
    rw [hfalse]
    exact ⟨fun h => absurd h Bool.false_ne_true, fun h => absurd (List.mem_of_getElem? hp) h⟩

/-- Of two default mappings of one type, the later one has the larger number. -/
theorem DefaultNumber.lt {p' r' : Nat} (h : m.DefaultNumber d p t r)
    (h' : m.DefaultNumber d p' t r') (hpp' : p < p') : r < r' := by
  have hsame := h.isActive.symm.trans h'.isActive
  cases h with
  | active hi ht =>
    cases h' with
    | active hj ht' => exact count_passed_lt (by omega) ht
    | complement hp' ht' =>
      exact absurd (List.mem_of_getElem? hp') (hsame.mp (start_add_notMem hi))
  | @complement i _ _ hp ht =>
    cases h' with
    | active hj ht' => exact absurd (List.mem_of_getElem? hp) (hsame.mpr (start_add_notMem hj))
    | @complement j _ _ hp' ht' =>
      have hij : i < j := by
        rcases Nat.lt_trichotomy i j with hij | rfl | hij
        · exact hij
        · exact absurd (Option.some.inj (hp.symm.trans hp')) hpp'.ne
        · exact absurd (SharedVariablesData.findIdxs_increasing hij hp' hp)
            (Nat.lt_asymm hpp')
      exact count_passed_lt hij ht

/-- A variable with a default mapping is inserted at the first variable of its type, plus its
number. -/
theorem IsDefault.insertedAt (hc : m.Constructed maps) (hins : m.updateSubModel maps = some ins)
    (hcomplement : m.ComplementPositions d) (h : m.IsDefault d p) :
    ∃ t r, (m.spec.types d)[p]? = some t ∧ r < m.defaultCount d t ∧ m.DefaultNumber d p t r ∧
      InsertedAt ins d p ((m.sub.types d).idxOf t + r) := by
  rcases h with h | ⟨i, hi, rfl, hlabel⟩
  · obtain ⟨i, hip⟩ := List.mem_iff_getElem?.mp h
    obtain ⟨hi, -⟩ := List.getElem?_eq_some_iff.mp hip
    obtain ⟨p', t, ht, hpt, hentry⟩ := hc.complementDefault hi
    obtain rfl : p' = p := by
      have hp' := hentry.1
      rw [hcomplement i hi, hip] at hp'
      exact (Option.some.inj hp').symm
    have htype : m.complementType d i = some t := by rw [complementType, hip, Option.bind_some, hpt]
    have hinserted := insertedAt_complement hc hins hcomplement hi hentry
    rw [hcomplement.passed_eq hi.le] at hinserted
    exact ⟨t, _, hpt, count_complement_lt hi htype, .complement hip htype, hinserted⟩
  · obtain ⟨t, ht, hentry⟩ := hc.default hi hlabel
    exact ⟨t, _, (activeDefault_eq_some.mp ht).2.2, count_active_lt hi ht, .active hi ht,
      insertedAt_active hc hins hcomplement hi hentry⟩

/-! ## Derivatives -/

theorem length_continuousIds : m.continuousIds.length = m.view.num .cv := by
  have hlen := congrArg List.length
    (VariablesSpec.types_isActive m.spec .cv).choose_spec
  simp only [List.length_map, List.length_append, List.length_replicate] at hlen
  change _ = m.view.start .cv + m.view.num .cv + _ at hlen
  rw [continuousIds, activeView, List.length_take, List.length_drop,
    SharedVariablesData.length_allIds, ← VariablesSpec.length_types]
  omega

theorem nodup_continuousIds : m.continuousIds.Nodup := by
  have hnodup : (m.spec.svd.allIds .cv).Nodup :=
    (SharedVariablesData.pairwise_allIds .cv).imp fun h => Nat.ne_of_lt h
  unfold continuousIds activeView
  exact hnodup.sublist ((List.take_sublist _ _).trans (List.drop_sublist _ _))

/-- The lookup of one id. -/
def subIteratorId (m : NestedVariables) (maps : VarMaps) (i : Nat) : Option Nat :=
  (maps.active i .cv).bind fun index => m.sub.allContinuousIds[index]?

theorem subIteratorDvv_eq (hc : m.Constructed maps) (mappedDvv : List Nat) :
    m.subIteratorDvv maps mappedDvv = mappedDvv.mapM fun id =>
      (m.continuousIds.idxOf? id).bind (m.subIteratorId maps) := by
  rw [subIteratorDvv, hc.startCounts_eq]
  rfl

theorem idxOf?_continuousIds {id : Nat} : m.continuousIds.idxOf? id = some i ↔
    i < m.view.num .cv ∧ (m.spec.svd.allIds .cv)[m.view.start .cv + i]? = some id := by
  rw [← getElem?_activeView_eq_some]
  change _ ↔ m.continuousIds[i]? = some id
  rw [List.idxOf?_eq_some]
  constructor
  · rintro ⟨hmem, rfl⟩
    rw [List.getElem?_eq_getElem (List.idxOf_lt_length_iff.mpr hmem)]
    exact congrArg some (List.getElem_idxOf _)
  · intro h
    obtain ⟨hi, rfl⟩ := List.getElem?_eq_some_iff.mp h
    exact ⟨List.getElem_mem hi, nodup_continuousIds.idxOf_getElem i hi⟩

/-- The active variables of an array have the indices below their number. -/
theorem lt_num_of_index (h : m.indexToActiveIndex d i = some k) : i < m.view.num d := by
  unfold indexToActiveIndex at h
  rw [SharedVariablesData.indexToActiveIndex_eq] at h
  obtain ⟨hi, -⟩ := List.getElem?_eq_some_iff.mp h
  have hswap : (m.spec.svd.allOrder.filter fun x =>
      m.spec.view.subsets.selects x.1 x.2).countP (fun x => decide (x.2 = d)) =
        ((m.spec.svd.allOrder.filter fun x => x.2 = d).map Prod.fst).countP
          fun g => decide (g ∈ SharedVariablesData.ownGroups m.spec.subset) := by
    rw [List.countP_map, List.countP_filter, List.countP_filter]
    refine List.countP_congr fun x _ => ?_
    rw [VariablesSpec.selects_eq]
    simp [and_comm]
  obtain ⟨rest, hrest⟩ := VariablesSpec.types_isActive m.spec d
  have hcount := congrArg (List.countP id) hrest
  rw [List.countP_map, List.countP_append, List.countP_append, List.countP_replicate,
    List.countP_replicate, List.countP_replicate] at hcount
  rw [List.length_findIdxs, hswap, VariablesSpec.filter_allOrder, List.countP_map] at hi
  change i < (m.spec.types d).countP (id ∘ m.spec.isActive) at hi
  rw [hcount] at hi
  simpa [view] using hi

/-! ## Conditions -/

theorem sameDomain_of_update (hc : m.Constructed maps)
    (hentries : ∀ (d : VarDomain), ∀ i < m.view.num d, ∃ q, m.HasEntry maps d i q)
    (hi : i < m.view.num d) (hlabel : m.label d i ≠ "") :
    m.labelDomain (m.label d i) = some d := by
  obtain ⟨k, e, q, hk, hentry, -, -, hdomain⟩ := hc.entry hi
  obtain ⟨q', k', hk', hentry'⟩ := hentries d i hi
  obtain rfl := Option.some.inj (hk.symm.trans hk')
  obtain ⟨rfl, -⟩ := only_injective (hentry.symm.trans hentry')
  exact hdomain hlabel

/-- If all complement variables are inserted, the map of their indices goes to all of them. -/
theorem complementPositions_of_inserted (hc : m.Constructed maps)
    (hins : m.updateSubModel maps = some ins)
    (h : ∀ p ∈ m.spec.complementPositions d, ∃ q, InsertedAt ins d p q) :
    m.ComplementPositions d := by
  have hsome : ∀ i < (m.spec.complementPositions d).length,
      ∃ p, m.complementIndexToDomainIndex d i = some p := by
    intro i hi
    obtain ⟨p, t, -, -, hentry⟩ := hc.complementDefault hi
    exact ⟨p, hentry.1⟩
  have hlen := length_passed hsome
  have hincreasing : (passed (m.complementIndexToDomainIndex d)
      (m.spec.complementPositions d).length).Pairwise (· < ·) := by
    unfold passed
    rw [List.pairwise_filterMap]
    exact List.pairwise_lt_range.imp fun hij a ha b hb =>
      complementIndexToDomainIndex_lt hij ha hb
  have heq : m.spec.complementPositions d = passed (m.complementIndexToDomainIndex d)
      (m.spec.complementPositions d).length := by
    refine List.eq_of_pairwise_lt List.pairwise_findIdxs hincreasing (fun p hp => ?_) hlen.le
    obtain ⟨q, hq⟩ := h p hp
    rcases (mem_updateSubModel hc hins).mp ((hq q).mpr rfl) with ⟨i, hi, hsource, -⟩ | ⟨i, hi, hentry⟩
    · obtain rfl : p = m.view.start d + i := hsource
      exact absurd hp (start_add_notMem hi)
    · exact List.mem_filterMap.mpr ⟨i, List.mem_range.mpr hi, hentry.1⟩
  intro i hi
  rw [heq, getElem?_passed hsome hi]

/-- If default mappings are inserted into variables of their types, these stand together. -/
theorem consecutive_of_sameType (hc : m.Constructed maps)
    (hins : m.updateSubModel maps = some ins) (hcomplement : m.ComplementPositions d)
    (h : ∀ p, m.IsDefault d p → ∃ q t, InsertedAt ins d p q ∧ (m.spec.types d)[p]? = some t ∧
      (m.sub.types d)[q]? = some t)
    (hr : r < m.defaultCount d t) : (m.sub.types d)[(m.sub.types d).idxOf t + r]? = some t := by
  have htype {p q : Nat} (hp : m.IsDefault d p) (hpt : (m.spec.types d)[p]? = some t)
      (hq : InsertedAt ins d p q) : (m.sub.types d)[q]? = some t := by
    obtain ⟨q', t', hq', hpt', hqt⟩ := h p hp
    obtain rfl := insertedAt_unique hq hq'
    obtain rfl := Option.some.inj (hpt.symm.trans hpt')
    exact hqt
  unfold defaultCount at hr
  cases hactive : m.spec.isActive t with
  | true =>
    rw [count_complementType hactive, Nat.add_zero] at hr
    obtain ⟨i, hi, hit, rfl⟩ := exists_count_passed hr
    obtain ⟨hlabel, -, hpt⟩ := activeDefault_eq_some.mp hit
    obtain ⟨t', ht', hentry⟩ := hc.default hi hlabel
    obtain rfl := Option.some.inj (hit.symm.trans ht')
    exact htype (.inr ⟨i, hi, rfl, hlabel⟩) hpt (insertedAt_active hc hins hcomplement hi hentry)
  | false =>
    rw [count_activeDefault hactive, Nat.zero_add] at hr
    obtain ⟨i, hi, hit, rfl⟩ := exists_count_passed hr
    obtain ⟨p, hp, hpt⟩ := Option.bind_eq_some_iff.mp hit
    obtain ⟨p', t', ht', hpt', hentry⟩ := hc.complementDefault hi
    obtain rfl : p' = p := by
      have hp' := hentry.1
      rw [hcomplement i hi, hp] at hp'
      exact (Option.some.inj hp').symm
    obtain rfl := Option.some.inj (hpt.symm.trans hpt')
    rw [← hcomplement.passed_eq hi.le]
    exact htype (.inl (List.mem_of_getElem? hp)) hpt
      (insertedAt_complement hc hins hcomplement hi hentry)

/-- If derivatives can be asked for, the active continuous variables come first. -/
theorem continuousFirst_of_derivatives (hc : m.Constructed maps)
    (hentries : ∀ (d : VarDomain), ∀ i < m.view.num d, ∃ q, m.HasEntry maps d i q)
    (h : ∀ id ∈ m.continuousIds, ∃ dvv, m.subIteratorDvv maps [id] = some dvv) :
    ∀ i < m.view.num .cv, m.indexToActiveIndex .cv i = some i := by
  intro i
  induction i using Nat.strong_induction_on with
  | _ i ih =>
    intro hi
    obtain ⟨k, -, -, hk, -⟩ := hc.entry hi
    by_contra hne
    have hik : i < k := by
      have hki : k ≠ i := by
        rintro rfl
        exact hne hk
      have hle : i ≤ k := by
        cases i with
        | zero => exact Nat.zero_le k
        | succ i =>
          exact indexToActiveIndex_lt (Nat.lt_succ_self i)
            (ih i (Nat.lt_succ_self i) (Nat.lt_of_succ_lt hi)) hk
      omega
    -- The variable at position `i` of the active ones is not continuous.
    obtain ⟨num, -, hmaps⟩ := m.spec.svd.indexMaps m.spec.view
    obtain ⟨mask, -, -, -, hlt, hunique⟩ := hmaps.active
    obtain ⟨⟨e, j⟩, hj, -⟩ := hunique i (Nat.lt_trans hik (hlt .cv hk))
    have he : e ≠ .cv := by
      rintro rfl
      rcases Nat.lt_trichotomy j i with hji | rfl | hji
      · have hjj := ih j hji (Nat.lt_trans hji hi)
        exact absurd (Option.some.inj (hjj.symm.trans hj)) hji.ne
      · exact absurd (Option.some.inj (hj.symm.trans hk)) hik.ne
      · exact absurd (indexToActiveIndex_lt hji hk hj) (Nat.lt_asymm hik)
    obtain ⟨q, k', hk', hentry⟩ := hentries e j (lt_num_of_index hj)
    obtain rfl := Option.some.inj (hj.symm.trans hk')
    have hnone : m.subIteratorId maps i = none := by
      rw [subIteratorId, hentry, MapEntry.only, if_neg he.symm]
      rfl
    obtain ⟨id, hid⟩ : ∃ id, m.continuousIds[i]? = some id :=
      ⟨_, List.getElem?_eq_getElem (by rwa [length_continuousIds])⟩
    obtain ⟨dvv, hdvv⟩ := h id (List.mem_of_getElem? hid)
    rw [subIteratorDvv_eq hc] at hdvv
    obtain ⟨subId, hsubId⟩ := exists_of_mapM hdvv (List.mem_singleton_self id)
    rw [idxOf?_continuousIds.mpr (getElem?_activeView_eq_some.mp hid), Option.bind_some,
      hnone] at hsubId
    cases hsubId

theorem Mappable.hasEntry (h : m.Mappable) (hc : m.Constructed maps) :
    ∀ (d : VarDomain), ∀ i < m.view.num d, ∃ q, m.HasEntry maps d i q := by
  intro d i hi
  obtain ⟨k, e, q, hk, hentry, -, hdefault, hdomain⟩ := hc.entry hi
  have he : e = d := by
    by_cases hlabel : m.label d i = ""
    · exact hdefault hlabel
    · exact Option.some.inj ((hdomain hlabel).symm.trans (h.sameDomain d i hi hlabel))
  subst he
  exact ⟨q, k, hk, hentry⟩

/-- The derivative variables, if the active continuous variables come first. -/
theorem Mappable.derivatives (h : m.Mappable) (hc : m.Constructed maps)
    (hins : m.updateSubModel maps = some ins) {mappedDvv : List Nat}
    (hids : ∀ id ∈ mappedDvv, id ∈ m.continuousIds) :
    ∃ dvv, m.subIteratorDvv maps mappedDvv = some dvv ∧
      List.Forall₂ (fun id subId => ∃ p q, (m.spec.svd.allIds .cv)[p]? = some id ∧
        InsertedAt ins .cv p q ∧ m.sub.allContinuousIds[q]? = some subId) mappedDvv dvv := by
  have hlookup {i : Nat} (hi : i < m.view.num .cv) : ∃ q, m.HasEntry maps .cv i q ∧
      q < m.sub.allContinuousIds.length ∧ m.subIteratorId maps i = m.sub.allContinuousIds[q]? := by
    obtain ⟨q, k, hk, hentry⟩ := h.hasEntry hc .cv i hi
    obtain ⟨k', e', q', hk', hentry', hlt, -⟩ := hc.entry hi
    obtain rfl := Option.some.inj (hk.symm.trans hk')
    obtain ⟨rfl, rfl⟩ := only_injective (hentry.symm.trans hentry')
    obtain rfl := Option.some.inj (hk.symm.trans (h.continuousFirst i hi))
    refine ⟨q, ⟨k, hk, hentry⟩, by rwa [m.sub.ids_length], ?_⟩
    rw [subIteratorId, hentry]
    rfl
  rw [subIteratorDvv_eq hc]
  obtain ⟨dvv, hdvv⟩ := exists_mapM (l := mappedDvv)
      (f := fun id => (m.continuousIds.idxOf? id).bind (m.subIteratorId maps)) fun id hid => by
    obtain ⟨i, hi⟩ := List.mem_iff_getElem?.mp (hids id hid)
    have hidx := getElem?_activeView_eq_some.mp hi
    obtain ⟨q, -, hq, hsub⟩ := hlookup hidx.1
    rw [idxOf?_continuousIds.mpr hidx, Option.bind_some, hsub]
    exact ⟨_, List.getElem?_eq_getElem hq⟩
  refine ⟨dvv, hdvv, (mapM_eq_some.mp hdvv).imp fun id subId hsubId => ?_⟩
  obtain ⟨i, hi, hsubId⟩ := Option.bind_eq_some_iff.mp hsubId
  obtain ⟨hi, hid⟩ := idxOf?_continuousIds.mp hi
  obtain ⟨q, hentry, -, hsub⟩ := hlookup hi
  exact ⟨_, q, hid, insertedAt_active hc hins (h.complementPositions .cv) hi hentry,
    hsub.symm.trans hsubId⟩

theorem Mappable.addresses (h : m.Mappable) (hc : m.Constructed maps)
    (hins : m.updateSubModel maps = some ins) : m.Addresses maps ins where
  sameType d p hp := by
    obtain ⟨t, r, hpt, hr, -, hinserted⟩ := hp.insertedAt hc hins (h.complementPositions d)
    exact ⟨_, t, hinserted, hpt, h.consecutive d t r hr⟩
  inOrder d p p' q q' hp hp' hlt hq hq' := by
    obtain ⟨t, r, hpt, hr, hnumber, hinserted⟩ :=
      hp.insertedAt hc hins (h.complementPositions d)
    obtain ⟨t', r', hpt', hr', hnumber', hinserted'⟩ :=
      hp'.insertedAt hc hins (h.complementPositions d)
    obtain rfl := insertedAt_unique hq hinserted
    obtain rfl := insertedAt_unique hq' hinserted'
    by_cases ht : t = t'
    · subst ht
      have hrr' := hnumber.lt hnumber' hlt
      exact ⟨by omega, fun _ => by omega⟩
    · constructor
      · intro heq
        have hqt := h.consecutive d t r hr
        rw [heq, h.consecutive d t' r' hr'] at hqt
        exact ht (Option.some.inj hqt).symm
      · intro heq
        rw [hpt, hpt'] at heq
        exact absurd (Option.some.inj heq) ht
  derivatives _ hids := h.derivatives hc hins hids

theorem Addresses.mappable (h : m.Addresses maps ins) (hc : m.Constructed maps)
    (hins : m.updateSubModel maps = some ins) : m.Mappable := by
  have hentries := (updateSubModel_iff hc).mp ⟨ins, hins⟩
  have hcomplement (d : VarDomain) : m.ComplementPositions d :=
    complementPositions_of_inserted hc hins fun p hp => by
      obtain ⟨q, -, hq, -⟩ := h.sameType d p (.inl hp)
      exact ⟨q, hq⟩
  refine ⟨fun d i => sameDomain_of_update hc hentries, hcomplement .div, fun d t r hr =>
    consecutive_of_sameType hc hins (hcomplement d) (h.sameType d) hr,
    continuousFirst_of_derivatives hc hentries fun id hid => ?_⟩
  obtain ⟨dvv, hdvv, -⟩ := h.derivatives [id] fun id' hid' => List.mem_singleton.mp hid' ▸ hid
  exact ⟨dvv, hdvv⟩

/-- **Insertion and derivatives** of an accepted specification lead to the same variables, of the
right types, if and only if it is mappable. -/
theorem addresses_iff (h : m.construct = some maps) :
    (∃ ins, m.updateSubModel maps = some ins ∧ m.Addresses maps ins) ↔ m.Mappable := by
  have hc := construct_eq_some h
  constructor
  · rintro ⟨ins, hins, haddresses⟩
    exact haddresses.mappable hc hins
  · intro hm
    obtain ⟨ins, hins⟩ := (updateSubModel_iff hc).mpr (hm.hasEntry hc)
    exact ⟨ins, hins, hm.addresses hc hins⟩

/-- A Poisson variable and a continuous interval variable, both uncertain and active. -/
def countAndInterval : NestedVariables :=
  let variablesComponents (t : VarType) : Nat :=
    if t = .poissonUncertain ∨ t = .continuousIntervalUncertain then 1 else 0
  { spec :=
      { variablesComponents
        svd :=
          { variablesCompsTotals := fun g d => ((VarType.ofTotal g d).map variablesComponents).sum
            allRelaxedDiscreteInt := []
            allRelaxedDiscreteReal := []
            int_length := .inl rfl
            real_length := .inl rfl }
        view := .mixed .uncertain
        totals_eq := fun _ _ => rfl
        view_ne := by decide
        not_relaxed := fun _ _ => rfl }
    sub :=
      { types := fun
          | .cv => [.continuousIntervalUncertain, .continuousState]
          | .div => [.poissonUncertain]
          | _ => []
        labels := fun
          | .cv => ["x", "s"]
          | .div => ["n"]
          | _ => []
        allContinuousIds := [2, 3]
        labels_length := fun d => by cases d <;> rfl
        ids_length := rfl
        ids_nodup := by decide }
    primaryVarMapping := [] }

theorem construct_countAndInterval : ∃ maps, countAndInterval.construct = some maps :=
  Option.isSome_iff_exists.mp (by decide)

/-- The derivative with respect to the continuous variable is looked up at the index of the integer
variable. -/
theorem countAndInterval_not_addressed : ¬ ∀ (m : NestedVariables) (maps : VarMaps),
    m.construct = some maps → ∃ ins, m.updateSubModel maps = some ins ∧ m.Addresses maps ins := by
  intro h
  obtain ⟨maps, hmaps⟩ := construct_countAndInterval
  obtain ⟨ins, -, haddresses⟩ := h countAndInterval maps hmaps
  obtain ⟨dvv, hdvv, -⟩ := haddresses.derivatives [2] (by decide)
  have hnone : (countAndInterval.construct.bind fun maps =>
      countAndInterval.subIteratorDvv maps [2]) = none := by decide
  rw [hmaps, Option.bind_some, hdvv] at hnone
  cases hnone

theorem addresses_countAndInterval : ∃ maps, countAndInterval.construct = some maps ∧
    ((∃ ins, countAndInterval.updateSubModel maps = some ins ∧
      countAndInterval.Addresses maps ins) ↔ countAndInterval.Mappable) := by
  obtain ⟨maps, hmaps⟩ := construct_countAndInterval
  exact ⟨maps, hmaps, addresses_iff hmaps⟩

end NestedVariables

end Dakota
