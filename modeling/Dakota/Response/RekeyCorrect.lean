import Dakota.Response.Rekey

/-!
# Rekeying loses nothing

* `Swept`: what an id map and its result hold when some of the responses are behind `r_it`. It is
  kept by each of the moves of the iterators, `pass`, `miss`, `hit` and `advance`.
* `rekeyLoop_spec`, `rekeyPair_spec`: a whole run of either form.
* `MovedResponses`: what a result map holds. `rekeyResponseMap_moves`: both forms, and that they
  agree.
-/

namespace Dakota

namespace Rekey

open OrdMap

variable {R : Type} (deepCopy : Bool) (copy : R → R)

/-! ## What is moved -/

/-- The returned responses that an id map has, under the ids of the caller. -/
def matched (idMap : IntIntMap) (resps : IntResponseMap R) : List (ℕ × R) :=
  resps.filterMap fun q => (idMap.lookup q.1).map fun caller => (caller, stored deepCopy copy q.2)

/-- The result map. -/
def rekeyed (idMap : IntIntMap) (resps : IntResponseMap R) : IntResponseMap R :=
  (matched deepCopy copy idMap resps).foldl (fun res p => res.assign p.1 p.2) []

/-- The ids that wait for a response. -/
def waiting (idMap : IntIntMap) (resps : IntResponseMap R) : IntIntMap :=
  idMap.filter fun p => ∀ q ∈ resps, q.1 ≠ p.1

/-- The responses that no id map has. -/
def unmatched (idMaps : List IntIntMap) (resps : IntResponseMap R) : IntResponseMap R :=
  resps.filter fun q => ∀ idMap ∈ idMaps, idMap.lookup q.1 = none

/-- No sub-model evaluation is in two id maps. -/
def DisjointIds (idMaps : List IntIntMap) : Prop :=
  idMaps.Pairwise fun m m' => ∀ p ∈ m, ∀ p' ∈ m', p.1 ≠ p'.1

variable {deepCopy copy} {idMap : IntIntMap} {before after : IntResponseMap R} {c : Cursor R}
  {q : ℕ × R}

theorem matched_append : matched deepCopy copy idMap (before ++ after) =
    matched deepCopy copy idMap before ++ matched deepCopy copy idMap after :=
  List.filterMap_append

theorem rekeyed_concat_none (h : idMap.lookup q.1 = none) :
    rekeyed deepCopy copy idMap (before ++ [q]) = rekeyed deepCopy copy idMap before := by
  rw [rekeyed, matched_append]
  simp [matched, h, rekeyed]

theorem rekeyed_concat_some {caller : ℕ} (h : idMap.lookup q.1 = some caller) :
    rekeyed deepCopy copy idMap (before ++ [q]) =
      (rekeyed deepCopy copy idMap before).assign caller (stored deepCopy copy q.2) := by
  rw [rekeyed, matched_append]
  simp [matched, h, rekeyed]

theorem unmatched_append {idMaps : List IntIntMap} :
    unmatched idMaps (before ++ after) = unmatched idMaps before ++ unmatched idMaps after :=
  List.filter_append ..

/-! ## The moves of the iterators -/

variable (deepCopy copy)

/-- The iterators are at `c.rest` and at `after`; the id map was `idMap`. -/
structure Swept (idMap : IntIntMap) (before after : IntResponseMap R) (c : Cursor R) : Prop where
  split : ∃ pre, idMap = pre ++ c.rest ∧ c.passed = waiting pre before ∧
    ∀ p ∈ pre, ∀ q ∈ after, p.1 < q.1
  above : ∀ q ∈ before, ∀ p ∈ c.rest, q.1 < p.1
  rekeyed : c.rekeyed = rekeyed deepCopy copy idMap before

variable {deepCopy copy}

theorem Swept.ordered_rest (hord : idMap.Ordered) (h : Swept deepCopy copy idMap before after c) :
    c.rest.Ordered := by
  obtain ⟨pre, heq, -⟩ := h.split
  rw [heq] at hord
  exact (List.pairwise_append.mp hord).2.1

theorem Swept.start : Swept deepCopy copy idMap [] after (.start idMap) :=
  ⟨⟨[], rfl, rfl, nofun⟩, nofun, rfl⟩

/-- An id before all responses that are left stays in its map. -/
theorem Swept.pass {p : ℕ × ℕ} {ids : IntIntMap} (h : Swept deepCopy copy idMap before after c)
    (hrest : c.rest = p :: ids) (hp : ∀ q ∈ after, p.1 < q.1) :
    Swept deepCopy copy idMap before after ⟨c.passed ++ [p], ids, c.rekeyed⟩ := by
  obtain ⟨pre, heq, hpassed, hbelow⟩ := h.split
  have habove : ∀ q ∈ before, q.1 < p.1 := fun q hq =>
    h.above q hq p (hrest ▸ List.mem_cons_self)
  refine ⟨⟨pre ++ [p], ?_, ?_, ?_⟩, fun q hq p' hp' => ?_, h.rekeyed⟩
  · rw [heq, hrest, List.append_assoc]
    rfl
  · have hkeep : waiting [p] before = [p] := by
      refine List.filter_eq_self.mpr fun p' hp' => decide_eq_true fun q hq => ?_
      rw [List.mem_singleton.mp hp']
      exact (habove q hq).ne
    change c.passed ++ [p] = _
    rw [waiting, List.filter_append, hpassed, ← waiting, ← waiting, hkeep]
  · intro p' hp' q hq
    rcases List.mem_append.mp hp' with hp' | hp'
    · exact hbelow p' hp' q hq
    · rw [List.mem_singleton.mp hp']
      exact hp q hq
  · exact h.above q hq p' (hrest ▸ List.mem_cons_of_mem p hp')

/-- An id before the next response is not that of any response. -/
theorem waiting_concat {pre : IntIntMap} (h : ∀ p ∈ pre, p.1 ≠ q.1) :
    waiting pre (before ++ [q]) = waiting pre before := by
  refine List.filter_congr fun p hp => decide_eq_decide.mpr ?_
  constructor
  · exact fun hall q' hq' => hall q' (List.mem_append_left _ hq')
  · intro hall q' hq'
    rcases List.mem_append.mp hq' with hq' | hq'
    · exact hall q' hq'
    · rw [List.mem_singleton.mp hq']
      exact (h p hp).symm

/-- A response before all ids that are left has no id in the map. -/
theorem Swept.lookup_eq_none (h : Swept deepCopy copy idMap before (q :: after) c)
    (hq : ∀ p ∈ c.rest, q.1 < p.1) : idMap.lookup q.1 = none := by
  obtain ⟨pre, heq, -, hbelow⟩ := h.split
  refine lookup_eq_none_iff.mpr fun p hp => ?_
  rw [heq] at hp
  rcases List.mem_append.mp hp with hp | hp
  · exact (hbelow p hp q List.mem_cons_self).ne
  · exact (hq p hp).ne'

theorem Swept.miss (h : Swept deepCopy copy idMap before (q :: after) c)
    (hq : ∀ p ∈ c.rest, q.1 < p.1) : Swept deepCopy copy idMap (before ++ [q]) after c := by
  have hnone := h.lookup_eq_none hq
  obtain ⟨pre, heq, hpassed, hbelow⟩ := h.split
  refine ⟨⟨pre, heq, ?_, fun p hp q' hq' => hbelow p hp q' (List.mem_cons_of_mem q hq')⟩, ?_, ?_⟩
  · rw [waiting_concat fun p hp => (hbelow p hp q List.mem_cons_self).ne, hpassed]
  · intro q' hq' p hp
    rcases List.mem_append.mp hq' with hq' | hq'
    · exact h.above q' hq' p hp
    · rw [List.mem_singleton.mp hq']
      exact hq p hp
  · rw [rekeyed_concat_none hnone, h.rekeyed]

/-- The two ids agree. -/
theorem Swept.hit {p : ℕ × ℕ} {ids : IntIntMap} (hord : idMap.Ordered)
    (h : Swept deepCopy copy idMap before (q :: after) c) (hafter : ∀ q' ∈ after, q.1 < q'.1)
    (hrest : c.rest = p :: ids) (hpq : p.1 = q.1) :
    idMap.lookup q.1 = some p.2 ∧
      Swept deepCopy copy idMap (before ++ [q]) after
        ⟨c.passed, ids, c.rekeyed.assign p.2 (stored deepCopy copy q.2)⟩ := by
  obtain ⟨pre, heq, hpassed, hbelow⟩ := h.split
  rw [hrest] at heq
  have hlookup : idMap.lookup q.1 = some p.2 := by
    rw [lookup_eq_some_iff hord, heq, ← hpq]
    exact List.mem_append_right _ List.mem_cons_self
  refine ⟨hlookup, ⟨pre ++ [p], ?_, ?_, ?_⟩, ?_, ?_⟩
  · rw [heq, List.append_assoc]
    rfl
  · have hdrop : waiting [p] (before ++ [q]) = [] := by
      refine List.filter_eq_nil_iff.mpr fun p' hp' hall => ?_
      rw [List.mem_singleton.mp hp'] at hall
      exact of_decide_eq_true hall q (List.mem_append_right _ (List.mem_singleton_self q)) hpq.symm
    change c.passed = _
    rw [waiting, List.filter_append, ← waiting, ← waiting, hdrop, List.append_nil, hpassed,
      waiting_concat fun p hp => (hbelow p hp q List.mem_cons_self).ne]
  · intro p' hp' q' hq'
    rcases List.mem_append.mp hp' with hp' | hp'
    · exact hbelow p' hp' q' (List.mem_cons_of_mem q hq')
    · rw [List.mem_singleton.mp hp', hpq]
      exact hafter q' hq'
  · have hids : ∀ p' ∈ ids, p.1 < p'.1 :=
      (List.pairwise_cons.mp (hrest ▸ h.ordered_rest hord)).1
    intro q' hq' p' hp'
    rcases List.mem_append.mp hq' with hq' | hq'
    · exact h.above q' hq' p' (hrest ▸ List.mem_cons_of_mem p hp')
    · rw [List.mem_singleton.mp hq', ← hpq]
      exact hids p' hp'
  · rw [rekeyed_concat_some hlookup, h.rekeyed]

/-- The loop that moves an id iterator up to the next response. -/
theorem Swept.advance (h : Swept deepCopy copy idMap before (q :: after) c)
    (hafter : ∀ q' ∈ after, q.1 < q'.1) :
    Swept deepCopy copy idMap before (q :: after) (c.advance q.1) := by
  obtain ⟨passed, rest, res⟩ := c
  induction rest generalizing passed with
  | nil => simpa [Cursor.advance] using h
  | cons p ids ih =>
    by_cases hp : p.1 < q.1
    · have hpass := h.pass rfl fun q' hq' => by
        rcases List.mem_cons.mp hq' with rfl | hq'
        · exact hp
        · exact hp.trans (hafter q' hq')
      have hnext := ih _ hpass
      simpa [Cursor.advance, hp] using hnext
    · simpa [Cursor.advance, hp] using h

theorem le_of_mem_dropWhile {id : ℕ} {l : IntIntMap} (hl : l.Ordered) {p : ℕ × ℕ}
    (hp : p ∈ l.dropWhile fun p => p.1 < id) : id ≤ p.1 := by
  induction l with
  | nil => cases hp
  | cons p' l ih =>
    obtain ⟨hp', hl'⟩ := List.pairwise_cons.mp hl
    by_cases hlt : p'.1 < id
    · simp only [List.dropWhile_cons, decide_eq_true hlt, if_true] at hp
      exact ih hl' hp
    · simp only [List.dropWhile_cons, decide_eq_false hlt, Bool.false_eq_true, if_false] at hp
      rcases List.mem_cons.mp hp with rfl | hp
      · exact not_lt.mp hlt
      · exact (not_lt.mp hlt).trans (hp' p hp).le

/-- Behind it, no id is before the response. -/
theorem Swept.le_of_mem_advance (hord : idMap.Ordered)
    (h : Swept deepCopy copy idMap before after c) {id : ℕ} {p : ℕ × ℕ}
    (hp : p ∈ (c.advance id).rest) : id ≤ p.1 :=
  le_of_mem_dropWhile (h.ordered_rest hord) hp

/-- When the id iterator is at its end, all responses that are left are misses. -/
theorem Swept.flush (h : Swept deepCopy copy idMap before after c) (hrest : c.rest = []) :
    Swept deepCopy copy idMap (before ++ after) [] c := by
  induction after generalizing before with
  | nil => simpa using h
  | cons q after ih =>
    have hmiss := h.miss fun p hp => by simp [hrest] at hp
    simpa using ih hmiss

theorem Swept.idMap_eq (h : Swept deepCopy copy idMap before [] c) :
    c.idMap = waiting idMap before := by
  obtain ⟨pre, heq, hpassed, -⟩ := h.split
  have hrest : waiting c.rest before = c.rest :=
    List.filter_eq_self.mpr fun p hp => decide_eq_true fun q hq => (h.above q hq p hp).ne
  rw [Cursor.idMap, hpassed, heq, waiting, waiting, List.filter_append, ← waiting, ← waiting, hrest]

/-! ## The array of id maps -/

variable {idMaps : List IntIntMap} {cs : List (Cursor R)}

theorem rekeyMap_miss (hord : idMap.Ordered)
    (h : Swept deepCopy copy idMap before (q :: after) c) (hafter : ∀ q' ∈ after, q.1 < q'.1)
    (hnone : idMap.lookup q.1 = none) (resps : IntResponseMap R) :
    rekeyMap deepCopy copy q.1 c resps = some (c.advance q.1, resps, false) ∧
      Swept deepCopy copy idMap (before ++ [q]) after (c.advance q.1) := by
  have hadv := h.advance hafter
  have hlt : ∀ p ∈ (c.advance q.1).rest, q.1 < p.1 := by
    intro p hp
    refine lt_of_le_of_ne (h.le_of_mem_advance hord hp) fun heq => ?_
    obtain ⟨pre, hsplit, -⟩ := hadv.split
    exact lookup_eq_none_iff.mp hnone p (hsplit ▸ List.mem_append_right _ hp) heq.symm
  refine ⟨?_, hadv.miss hlt⟩
  rw [rekeyMap]
  split
  · rfl
  next p ids hrest => exact if_neg (hlt p (hrest ▸ List.mem_cons_self)).ne'

theorem rekeyMap_hit (hord : idMap.Ordered) {caller : ℕ}
    (h : Swept deepCopy copy idMap before (q :: after) c) (hafter : ∀ q' ∈ after, q.1 < q'.1)
    (hsome : idMap.lookup q.1 = some caller) :
    ∃ c', rekeyMap deepCopy copy q.1 c (q :: after) = some (c', after, true) ∧
      Swept deepCopy copy idMap (before ++ [q]) after c' := by
  have hadv := h.advance hafter
  rw [rekeyMap]
  split
  next hrest =>
    -- the id would be one that was passed
    have hnone := hadv.lookup_eq_none fun p hp => by simp [hrest] at hp
    rw [hsome] at hnone
    cases hnone
  next p ids hrest =>
    have hle := h.le_of_mem_advance hord (hrest ▸ List.mem_cons_self : p ∈ (c.advance q.1).rest)
    rcases hle.eq_or_lt with heq | hlt
    · rw [if_pos heq.symm]
      exact ⟨_, rfl, (hadv.hit hord hafter hrest heq.symm).2⟩
    · have hnone := hadv.lookup_eq_none fun p' hp' => by
        rw [hrest] at hp'
        rcases List.mem_cons.mp hp' with rfl | hp'
        · exact hlt
        · have hids := (List.pairwise_cons.mp (hrest ▸ hadv.ordered_rest hord)).1
          exact hlt.trans (hids p' hp')
      rw [hsome] at hnone
      cases hnone

/-- Every id map with its iterator. -/
abbrev AllSwept (deepCopy : Bool) (copy : R → R) (idMaps : List IntIntMap)
    (before after : IntResponseMap R) (cs : List (Cursor R)) : Prop :=
  List.Forall₂ (fun idMap c => Swept deepCopy copy idMap before after c) idMaps cs

theorem rekeyMaps_cons {id : ℕ} {c' : Cursor R} {cs' : List (Cursor R)}
    {resps resps₁ resps₂ : IntResponseMap R} {hit found active : Bool}
    (h : rekeyMap deepCopy copy id c resps = some (c', resps₁, hit))
    (hs : rekeyMaps deepCopy copy id cs resps₁ = some (cs', resps₂, found, active)) :
    rekeyMaps deepCopy copy id (c :: cs) resps =
      some (c' :: cs', resps₂, hit || found, !c'.rest.isEmpty || active) := by
  rw [rekeyMaps, h]
  simp only [Option.bind_eq_bind, Option.bind_some, hs]
  rfl

theorem rest_eq_nil_cons {c' : Cursor R} {cs' : List (Cursor R)} {active : Bool}
    (hactive : active = false → ∀ c ∈ cs', c.rest = [])
    (hfalse : (!c'.rest.isEmpty || active) = false) : ∀ c ∈ c' :: cs', c.rest = [] := by
  obtain ⟨hempty, hfalse⟩ := Bool.or_eq_false_iff.mp hfalse
  exact List.forall_mem_cons.mpr ⟨by simpa using hempty, hactive hfalse⟩

/-- A response that no id map has. -/
theorem rekeyMaps_miss (hord : ∀ idMap ∈ idMaps, idMap.Ordered)
    (h : AllSwept deepCopy copy idMaps before (q :: after) cs)
    (hafter : ∀ q' ∈ after, q.1 < q'.1) (hnone : ∀ idMap ∈ idMaps, idMap.lookup q.1 = none)
    (resps : IntResponseMap R) :
    ∃ cs' active, rekeyMaps deepCopy copy q.1 cs resps = some (cs', resps, false, active) ∧
      AllSwept deepCopy copy idMaps (before ++ [q]) after cs' ∧
      (active = false → ∀ c ∈ cs', c.rest = []) := by
  induction h with
  | nil => exact ⟨[], false, rfl, .nil, fun _ => nofun⟩
  | @cons idMap c idMaps cs hc _ ih =>
    obtain ⟨hmap, hmaps⟩ := List.forall_mem_cons.mp hord
    obtain ⟨hmapNone, hmapsNone⟩ := List.forall_mem_cons.mp hnone
    obtain ⟨hrun, hswept⟩ := rekeyMap_miss hmap hc hafter hmapNone resps
    obtain ⟨cs', active, hruns, hsweeps, hactive⟩ := ih hmaps hmapsNone
    exact ⟨_, _, rekeyMaps_cons hrun hruns, .cons hswept hsweeps, rest_eq_nil_cons hactive⟩

/-- A response that one id map has; the maps behind it see the next response, and do not have this
one. -/
theorem rekeyMaps_hit (hord : ∀ idMap ∈ idMaps, idMap.Ordered) (hdisj : DisjointIds idMaps)
    (h : AllSwept deepCopy copy idMaps before (q :: after) cs)
    (hafter : ∀ q' ∈ after, q.1 < q'.1) (hsome : ∃ idMap ∈ idMaps, idMap.lookup q.1 ≠ none) :
    ∃ cs' active, rekeyMaps deepCopy copy q.1 cs (q :: after) = some (cs', after, true, active) ∧
      AllSwept deepCopy copy idMaps (before ++ [q]) after cs' ∧
      (active = false → ∀ c ∈ cs', c.rest = []) := by
  induction h with
  | nil =>
    obtain ⟨idMap, hmem, -⟩ := hsome
    cases hmem
  | @cons idMap c idMaps cs hc hcs ih =>
    obtain ⟨hmap, hmaps⟩ := List.forall_mem_cons.mp hord
    obtain ⟨hfirst, hothers⟩ := List.pairwise_cons.mp hdisj
    cases hlookup : idMap.lookup q.1 with
    | none =>
      have hsome' : ∃ idMap ∈ idMaps, idMap.lookup q.1 ≠ none := by
        obtain ⟨idMap', hmem, hne⟩ := hsome
        rcases List.mem_cons.mp hmem with rfl | hmem
        · exact absurd hlookup hne
        · exact ⟨idMap', hmem, hne⟩
      obtain ⟨hrun, hswept⟩ := rekeyMap_miss hmap hc hafter hlookup (q :: after)
      obtain ⟨cs', active, hruns, hsweeps, hactive⟩ := ih hmaps hothers hsome'
      exact ⟨_, _, rekeyMaps_cons hrun hruns, .cons hswept hsweeps, rest_eq_nil_cons hactive⟩
    | some caller =>
      have hnone : ∀ idMap' ∈ idMaps, idMap'.lookup q.1 = none := fun idMap' hmem =>
        lookup_eq_none_iff.mpr fun p hp =>
          (hfirst idMap' hmem _ ((lookup_eq_some_iff hmap).mp hlookup) p hp).symm
      obtain ⟨c', hrun, hswept⟩ := rekeyMap_hit hmap hc hafter hlookup
      obtain ⟨cs', active, hruns, hsweeps, hactive⟩ := rekeyMaps_miss hmaps hcs hafter hnone after
      exact ⟨_, _, rekeyMaps_cons hrun hruns, .cons hswept hsweeps, rest_eq_nil_cons hactive⟩

theorem rekeyLoop_found {passed rest resps : IntResponseMap R} {cs' : List (Cursor R)}
    {active : Bool}
    (h : rekeyMaps deepCopy copy q.1 cs (q :: rest) = some (cs', resps, true, active)) :
    rekeyLoop deepCopy copy cs passed (q :: rest) true =
      rekeyLoop deepCopy copy cs' passed resps active := by
  rw [rekeyLoop, if_pos rfl]
  split
  next hnone => rw [h] at hnone; cases hnone
  next heq =>
    rw [h] at heq
    cases heq
    rfl

theorem rekeyLoop_not_found {passed rest resps : IntResponseMap R} {cs' : List (Cursor R)}
    {active : Bool} {q' : ℕ × R}
    (h : rekeyMaps deepCopy copy q.1 cs (q :: rest) = some (cs', q' :: resps, false, active)) :
    rekeyLoop deepCopy copy cs passed (q :: rest) true =
      rekeyLoop deepCopy copy cs' (passed ++ [q']) resps active := by
  rw [rekeyLoop, if_pos rfl]
  split
  next hnone => rw [h] at hnone; cases hnone
  next heq =>
    rw [h] at heq
    cases heq
    rfl

theorem unmatched_singleton_none (h : ∀ idMap ∈ idMaps, idMap.lookup q.1 = none) :
    unmatched idMaps [q] = [q] := by
  simp only [unmatched, List.filter_cons, decide_eq_true h, if_true, List.filter_nil]

theorem unmatched_singleton_some (h : ∃ idMap ∈ idMaps, idMap.lookup q.1 ≠ none) :
    unmatched idMaps [q] = [] := by
  obtain ⟨idMap, hmem, hne⟩ := h
  have hneg : ¬∀ idMap ∈ idMaps, idMap.lookup q.1 = none := fun hall => hne (hall idMap hmem)
  simp only [unmatched, List.filter_cons, decide_eq_false hneg, Bool.false_eq_true, if_false,
    List.filter_nil]

/-- When all id iterators are at their ends, no response that is left is matched. -/
theorem AllSwept.unmatched_eq (h : AllSwept deepCopy copy idMaps before after cs)
    (hrest : ∀ c ∈ cs, c.rest = []) : unmatched idMaps after = after := by
  refine List.filter_eq_self.mpr fun q hq => decide_eq_true fun idMap hmem => ?_
  induction h with
  | nil => cases hmem
  | cons hc _ ih =>
    obtain ⟨hnil, hrest⟩ := List.forall_mem_cons.mp hrest
    rcases List.mem_cons.mp hmem with rfl | hmem
    · obtain ⟨pre, heq, -, hbelow⟩ := hc.split
      rw [hnil, List.append_nil] at heq
      exact lookup_eq_none_iff.mpr fun p hp => (hbelow p (heq ▸ hp) q hq).ne
    · exact ih hrest hmem

theorem AllSwept.flush (h : AllSwept deepCopy copy idMaps before after cs)
    (hrest : ∀ c ∈ cs, c.rest = []) : AllSwept deepCopy copy idMaps (before ++ after) [] cs := by
  induction h with
  | nil => exact .nil
  | cons hc _ ih =>
    obtain ⟨hnil, hrest⟩ := List.forall_mem_cons.mp hrest
    exact .cons (hc.flush hnil) (ih hrest)

/-- The whole traversal. -/
theorem rekeyLoop_spec (hord : ∀ idMap ∈ idMaps, idMap.Ordered) (hdisj : DisjointIds idMaps)
    {active : Bool} (h : AllSwept deepCopy copy idMaps before after cs)
    (hafter : after.Ordered) (hactive : active = false → ∀ c ∈ cs, c.rest = []) :
    ∃ cs', rekeyLoop deepCopy copy cs (unmatched idMaps before) after active =
        some (cs', unmatched idMaps (before ++ after)) ∧
      AllSwept deepCopy copy idMaps (before ++ after) [] cs' := by
  induction after generalizing before cs active with
  | nil =>
    rw [rekeyLoop, List.append_nil]
    exact ⟨cs, rfl, h⟩
  | cons q after ih =>
    obtain ⟨hq, hafter⟩ := List.pairwise_cons.mp hafter
    have hsplit : before ++ q :: after = before ++ [q] ++ after := by simp
    cases active with
    | false =>
      rw [rekeyLoop, unmatched_append, h.unmatched_eq (hactive rfl)]
      exact ⟨cs, rfl, h.flush (hactive rfl)⟩
    | true =>
      by_cases hmatch : ∃ idMap ∈ idMaps, idMap.lookup q.1 ≠ none
      · obtain ⟨cs₁, active', hrun, hsweeps, hactive'⟩ := rekeyMaps_hit hord hdisj h hq hmatch
        have hdrop : unmatched idMaps (before ++ [q]) = unmatched idMaps before := by
          rw [unmatched_append, unmatched_singleton_some hmatch, List.append_nil]
        obtain ⟨cs', hloop, hend⟩ := ih hsweeps hafter hactive'
        rw [hdrop] at hloop
        rw [hsplit]
        exact ⟨cs', (rekeyLoop_found hrun).trans hloop, hend⟩
      · have hnone : ∀ idMap ∈ idMaps, idMap.lookup q.1 = none := fun idMap hmem =>
          not_not.mp fun hne => hmatch ⟨idMap, hmem, hne⟩
        obtain ⟨cs₁, active', hrun, hsweeps, hactive'⟩ :=
          rekeyMaps_miss hord h hq hnone (q :: after)
        have hkeep : unmatched idMaps (before ++ [q]) = unmatched idMaps before ++ [q] := by
          rw [unmatched_append, unmatched_singleton_none hnone]
        obtain ⟨cs', hloop, hend⟩ := ih hsweeps hafter hactive'
        rw [hkeep] at hloop
        rw [hsplit]
        exact ⟨cs', (rekeyLoop_not_found hrun).trans hloop, hend⟩

/-! ## One id map -/

theorem rekeyPair_spec (hord : idMap.Ordered) {c : Cursor R}
    (h : Swept deepCopy copy idMap before after c) (hafter : after.Ordered) :
    ∃ c', rekeyPair deepCopy copy c (unmatched [idMap] before) after =
        (c', unmatched [idMap] (before ++ after)) ∧
      Swept deepCopy copy idMap (before ++ after) [] c' := by
  induction hn : c.rest.length + after.length using Nat.strong_induction_on
    generalizing before after c with
  | _ n ih =>
    obtain ⟨idsPassed, rest, res⟩ := c
    cases rest with
    | nil =>
      have hall : AllSwept deepCopy copy [idMap] before after [⟨idsPassed, [], res⟩] :=
        .cons h .nil
      rw [rekeyPair, unmatched_append, hall.unmatched_eq (by simp)]
      exact ⟨_, rfl, h.flush rfl⟩
    | cons p ids =>
      cases after with
      | nil =>
        rw [rekeyPair, List.append_nil]
        · exact ⟨_, rfl, h⟩
        · simp
      | cons q after =>
        obtain ⟨hq, hafter'⟩ := List.pairwise_cons.mp hafter
        have hsplit : before ++ q :: after = before ++ [q] ++ after := by simp
        rw [rekeyPair]
        rcases lt_trichotomy p.1 q.1 with hlt | heq | hgt
        · rw [if_pos hlt]
          refine ih _ (by subst hn; simp) (h.pass rfl fun q' hq' => ?_) hafter rfl
          rcases List.mem_cons.mp hq' with rfl | hq'
          · exact hlt
          · exact hlt.trans (hq q' hq')
        · obtain ⟨hlookup, hswept⟩ := h.hit hord hq rfl heq
          have hdrop : unmatched [idMap] (before ++ [q]) = unmatched [idMap] before := by
            rw [unmatched_append, unmatched_singleton_some ⟨idMap, by simp [hlookup]⟩,
              List.append_nil]
          obtain ⟨c', hrun, hend⟩ := ih _ (by subst hn; simp; omega) hswept hafter' rfl
          rw [hdrop] at hrun
          rw [if_neg heq.not_lt, if_neg heq.not_gt, hsplit]
          exact ⟨c', hrun, hend⟩
        · have hids : ∀ p' ∈ ids, p.1 < p'.1 := (List.pairwise_cons.mp (h.ordered_rest hord)).1
          have hrest : ∀ p' ∈ p :: ids, q.1 < p'.1 :=
            List.forall_mem_cons.mpr ⟨hgt, fun p' hp' => hgt.trans (hids p' hp')⟩
          have hnone : ∀ idMap' ∈ [idMap], idMap'.lookup q.1 = none := by
            simpa using h.lookup_eq_none hrest
          have hkeep : unmatched [idMap] (before ++ [q]) = unmatched [idMap] before ++ [q] := by
            rw [unmatched_append, unmatched_singleton_none hnone]
          obtain ⟨c', hrun, hend⟩ := ih _ (by subst hn; simp) (h.miss hrest) hafter' rfl
          rw [hkeep] at hrun
          rw [if_neg hgt.not_gt, if_pos hgt, hsplit]
          exact ⟨c', hrun, hend⟩

/-! ## The result -/

variable (deepCopy copy) in
/-- A result map is made of the responses that the id map has. Where several of them have one id of
the caller, the one with the greatest id stays. -/
structure MovedResponses (idMap : IntIntMap) (resps res : IntResponseMap R) : Prop where
  ordered : res.Ordered
  sound : ∀ caller r, (caller, r) ∈ res → ∃ id resp,
    (id, caller) ∈ idMap ∧ (id, resp) ∈ resps ∧ stored deepCopy copy resp = r
  complete : ∀ id caller resp, (id, caller) ∈ idMap → (id, resp) ∈ resps →
    (∀ id' resp', (id', caller) ∈ idMap → (id', resp') ∈ resps → id' ≤ id) →
      (caller, stored deepCopy copy resp) ∈ res

theorem mem_matched {resps : IntResponseMap R} (hord : idMap.Ordered) {p : ℕ × R} :
    p ∈ matched deepCopy copy idMap resps ↔
      ∃ id resp, (id, p.1) ∈ idMap ∧ (id, resp) ∈ resps ∧ stored deepCopy copy resp = p.2 := by
  simp only [matched, List.mem_filterMap, Option.map_eq_some_iff, lookup_eq_some_iff hord,
    Prod.exists]
  constructor
  · rintro ⟨id, resp, hmem, caller, hcaller, rfl⟩
    exact ⟨id, resp, hcaller, hmem, rfl⟩
  · rintro ⟨id, resp, hcaller, hmem, hstored⟩
    exact ⟨id, resp, hmem, p.1, hcaller, Prod.ext rfl hstored⟩

theorem mem_rekeyed {resps : IntResponseMap R} {caller : ℕ} {r : R} :
    (caller, r) ∈ rekeyed deepCopy copy idMap resps ↔
      ((matched deepCopy copy idMap resps).reverse.find? fun p => p.1 = caller).map (·.2) =
        some r := by
  rw [rekeyed, ← lookup_eq_some_iff (ordered_nil.foldl_assign _), lookup_foldl_assign]
  simp [lookup]

theorem moved_rekeyed (hord : idMap.Ordered) {resps : IntResponseMap R} (hresps : resps.Ordered) :
    MovedResponses deepCopy copy idMap resps (rekeyed deepCopy copy idMap resps) where
  ordered := ordered_nil.foldl_assign _
  sound caller r hmem := by
    rw [mem_rekeyed, Option.map_eq_some_iff] at hmem
    obtain ⟨p, hfind, rfl⟩ := hmem
    obtain rfl : p.1 = caller := by simpa using List.find?_some hfind
    exact (mem_matched hord).mp (List.mem_reverse.mp (List.mem_of_find?_eq_some hfind))
  complete id caller resp hid hresp hlast := by
    obtain ⟨l₁, l₂, rfl⟩ := List.append_of_mem hresp
    have hlater : ∀ q ∈ l₂, id < q.1 :=
      (List.pairwise_cons.mp (List.pairwise_append.mp hresps).2.1).1
    have hlookup : idMap.lookup id = some caller := (lookup_eq_some_iff hord).mpr hid
    -- behind the response no other one is stored under the same id
    have hnone : (matched deepCopy copy idMap l₂).reverse.find? (fun p => p.1 = caller) = none := by
      rw [List.find?_eq_none]
      intro p hp hcaller
      rw [List.mem_reverse, mem_matched hord, of_decide_eq_true hcaller] at hp
      obtain ⟨id', resp', hid', hresp', -⟩ := hp
      have hle := hlast id' resp' hid'
        (List.mem_append_right _ (List.mem_cons_of_mem _ hresp'))
      exact (hlater _ hresp').not_ge hle
    have hsplit : matched deepCopy copy idMap (l₁ ++ (id, resp) :: l₂) =
        matched deepCopy copy idMap l₁ ++ (caller, stored deepCopy copy resp) ::
          matched deepCopy copy idMap l₂ := by
      rw [matched_append]
      simp [matched, hlookup]
    rw [mem_rekeyed, hsplit, List.reverse_append, List.reverse_cons, List.find?_append,
      List.find?_append, hnone]
    simp

/-- The object after the responses that are left were handed over. -/
def MetaObject.handedOver (o : MetaObject R) (rest : IntResponseMap R) : MetaObject R where
  responseMap := []
  cachedResponseMap := o.cachedResponseMap.insertRange rest

/-- They are handed over if there are any. -/
theorem handedOver_eq (o : MetaObject R) (rest : IntResponseMap R) :
    (if rest.isEmpty then { o with responseMap := rest }
      else { o with responseMap := rest }.cacheUnmatchedResponses) = o.handedOver rest := by
  cases rest <;> rfl

variable (deepCopy copy) {o : MetaObject R}

theorem rekeyResponseMap_eq (hresps : o.responseMap.Ordered) (hord : idMap.Ordered) :
    rekeyResponseMap deepCopy copy o idMap =
      (o.handedOver (unmatched [idMap] o.responseMap), waiting idMap o.responseMap,
        rekeyed deepCopy copy idMap o.responseMap) := by
  have hstart : Swept deepCopy copy idMap [] o.responseMap (.start idMap) := Swept.start
  obtain ⟨c, hrun, hend⟩ := rekeyPair_spec hord hstart hresps
  have hrun' : rekeyPair deepCopy copy (.start idMap) [] o.responseMap =
      (c, unmatched [idMap] o.responseMap) := hrun
  simp only [rekeyResponseMap, hrun', handedOver_eq, hend.idMap_eq, hend.rekeyed, List.nil_append]

theorem allSwept_start (idMaps : List IntIntMap) :
    AllSwept deepCopy copy idMaps [] o.responseMap (idMaps.map .start) := by
  induction idMaps with
  | nil => exact .nil
  | cons idMap idMaps ih => exact .cons Swept.start ih

variable {deepCopy copy} in
theorem AllSwept.idMaps_eq (h : AllSwept deepCopy copy idMaps before [] cs) :
    cs.map (·.idMap) = idMaps.map fun idMap => waiting idMap before := by
  induction h with
  | nil => rfl
  | cons hc _ ih => rw [List.map_cons, List.map_cons, ih, hc.idMap_eq]

variable {deepCopy copy} in
theorem AllSwept.rekeyed_eq (h : AllSwept deepCopy copy idMaps before [] cs) :
    cs.map (·.rekeyed) = idMaps.map fun idMap => rekeyed deepCopy copy idMap before := by
  induction h with
  | nil => rfl
  | cons hc _ ih => rw [List.map_cons, List.map_cons, ih, hc.rekeyed]

theorem rekeyResponseMaps_eq (hresps : o.responseMap.Ordered)
    (hord : ∀ idMap ∈ idMaps, idMap.Ordered) (hdisj : DisjointIds idMaps) :
    rekeyResponseMaps deepCopy copy o idMaps =
      some (o.handedOver (unmatched idMaps o.responseMap),
        idMaps.map fun idMap => waiting idMap o.responseMap,
        idMaps.map fun idMap => rekeyed deepCopy copy idMap o.responseMap) := by
  have hactive : true = false → ∀ c ∈ idMaps.map (Cursor.start (R := R)), c.rest = [] := nofun
  obtain ⟨cs, hrun, hend⟩ := rekeyLoop_spec hord hdisj (allSwept_start deepCopy copy idMaps) hresps
    hactive
  have hrun' : rekeyLoop deepCopy copy (idMaps.map .start) [] o.responseMap true =
      some (cs, unmatched idMaps o.responseMap) := hrun
  rw [List.nil_append] at hend
  simp only [rekeyResponseMaps, hrun', Option.bind_eq_bind, Option.bind_some, handedOver_eq,
    hend.idMaps_eq, hend.rekeyed_eq]
  rfl

end Rekey

open Rekey OrdMap

/-- Both forms end. Each result map gets the responses that its id map has, these leave the id map
and the returned map, and all others are handed over. With one map the forms agree. -/
theorem rekeyResponseMap_moves {R : Type} (deepCopy : Bool) (copy : R → R) (o : MetaObject R)
    (idMaps : List IntIntMap) (hresps : o.responseMap.Ordered)
    (hord : ∀ idMap ∈ idMaps, idMap.Ordered) (hdisj : DisjointIds idMaps) :
    rekeyResponseMaps deepCopy copy o idMaps =
      some (o.handedOver (unmatched idMaps o.responseMap),
        idMaps.map fun idMap => waiting idMap o.responseMap,
        idMaps.map fun idMap => rekeyed deepCopy copy idMap o.responseMap) ∧
    ∀ idMap ∈ idMaps,
      rekeyResponseMap deepCopy copy o idMap =
        (o.handedOver (unmatched [idMap] o.responseMap), waiting idMap o.responseMap,
          rekeyed deepCopy copy idMap o.responseMap) ∧
      MovedResponses deepCopy copy idMap o.responseMap
        (rekeyed deepCopy copy idMap o.responseMap) ∧
      rekeyResponseMaps deepCopy copy o [idMap] =
        some ((rekeyResponseMap deepCopy copy o idMap).1,
          [(rekeyResponseMap deepCopy copy o idMap).2.1],
          [(rekeyResponseMap deepCopy copy o idMap).2.2]) := by
  refine ⟨rekeyResponseMaps_eq deepCopy copy hresps hord hdisj, fun idMap hmem => ?_⟩
  have hmap := hord idMap hmem
  have hsingle := rekeyResponseMap_eq deepCopy copy hresps hmap
  refine ⟨hsingle, moved_rekeyed hmap hresps, ?_⟩
  rw [hsingle, rekeyResponseMaps_eq deepCopy copy hresps (by simpa using hmap)
    (List.pairwise_singleton _ _)]
  rfl

theorem rekeyResponseMap_moves_twoMaps :
    rekeyResponseMaps false id ⟨[(1, 'a'), (2, 'b'), (3, 'c')], []⟩
        [[(2, 10), (5, 11)], [(1, 20)]] =
      some (⟨[], [(3, 'c')]⟩, [[(5, 11)], []], [[(10, 'b')], [(20, 'a')]]) :=
  (rekeyResponseMap_moves false id ⟨[(1, 'a'), (2, 'b'), (3, 'c')], []⟩
    [[(2, 10), (5, 11)], [(1, 20)]] (by simp [Ordered]) (by simp [Ordered])
    (by unfold DisjointIds; decide)).1.trans rfl

end Dakota
