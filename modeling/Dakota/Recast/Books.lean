import Dakota.Recast.Contract

/-!
# The books of a recast model

* `RecastMappings.Uniform`: what the mappings have to be so that `derived_synchronize` does with a
  response what `derived_evaluate` does with it.
* `Pending`: an evaluation that waits in a recast model. `Bookkept`: what the maps for the response
  mappings have of it; `transformResponseMap_eq`: the loop of `transform_response_map`.
* `Books`: what all maps and the sub-model have of the evaluations that wait. `collect_books`: one
  synchronization. `Books.push`: one more evaluation.
-/

namespace Dakota

namespace Recast

open OrdMap Outcome Rekey

variable {σ V K : Type}

/-! ## Uniform mappings -/

namespace RecastMappings

variable {m : RecastMappings V K}

variable (m) in
/-- A set mapping changes requests only. What has no mapping is there in the sub-model as the same
data. -/
structure Uniform : Prop where
  setMapping : ∀ f, m.setMapping = some f → ∀ v set sub,
    (f v set sub).numFns = sub.numFns ∧ (f v set sub).derivVarsVector = sub.derivVarsVector
  primary : m.primaryRespMapping = none → m.primaryRespMapIndices.length ≤ m.subResponseSize
  secondary : m.secondaryRespMapping = none → m.secondaryRespMapIndices.length ≤ m.subResponseSize
  sameSet : m.mapsResponse = false → ∀ v set sub, m.transformSet v set = .ok sub → sub = set
  sameVars : m.mapsResponse = true → m.variablesMapping = none → ∀ v sub,
    m.mapVariablesByView v sub = v

theorem length_projectAsv (asv : List Nat) : (m.projectAsv asv).length = m.subResponseSize := by
  have hfold (requests : List (Nat × Nat)) (sub : List Nat) :
      (requests.foldl (fun sub c => sub.modify c.1 (· ||| c.2)) sub).length = sub.length := by
    induction requests generalizing sub with
    | nil => rfl
    | cons r requests ih => rw [List.foldl_cons, ih, List.length_modify]
  rw [projectAsv, hfold, List.length_replicate]

variable {v : V} {set subSet : ActiveSet}

theorem meets_transformSet (hm : m.Uniform) : Meets AsynchModel.WrongSize (fun sub =>
    set.numFns = m.respMapIndices.length ∧ sub.numFns = m.subResponseSize ∧
      sub.derivVarsVector = set.derivVarsVector) (m.transformSet v set) := by
  unfold transformSet
  by_cases h : set.numFns ≠ m.respMapIndices.length
  · rw [if_pos h]
    exact rfl
  · rw [if_neg h]
    cases hmap : m.setMapping with
    | none => exact ⟨not_not.mp h, length_projectAsv _, rfl⟩
    | some f =>
      obtain ⟨hfns, hderivs⟩ := hm.setMapping f hmap v set
        ⟨m.projectAsv set.requestVector, set.derivVarsVector⟩
      exact ⟨not_not.mp h, hfns.trans (length_projectAsv _), hderivs⟩

/-- Enough functions and derivatives for `update_partial`. -/
theorem checkPartial_eq {startTarget numItems startSource : Nat} {source : ActiveSet}
    (htarget : startTarget + numItems ≤ set.numFns)
    (hsource : startSource + numItems ≤ source.numFns)
    (hderivs : source.derivVarsVector = set.derivVarsVector) :
    checkPartial set startTarget numItems source startSource = .ok () := by
  have hparams : ¬ (((set.flag 2 || set.flag 4) && source.numParams < set.numParams) = true) := by
    rw [ActiveSet.numParams, ActiveSet.numParams, hderivs]
    simp
  have hfns : ¬ (set.numFns < startTarget + numItems ∨ source.numFns < startSource + numItems) := by
    omega
  rw [checkPartial, if_neg hfns, if_neg hparams, ite_self]

/-- A response to the set that the sub-model is asked for is transformed without an error, to one
with the set of the evaluation. -/
theorem recastResponse_ok (hm : m.Uniform) (hset : m.transformSet v set = .ok subSet)
    (subVars : V) {reply : Reply K} (hreply : reply.activeSet = subSet) :
    ∃ r, m.recastResponse subVars v reply set = .ok r ∧ r.Exact set := by
  obtain ⟨hfns, hsub, hderivs⟩ := (meets_transformSet hm).of_ok hset
  have hsize : set.numFns = m.primaryRespMapIndices.length + m.secondaryRespMapIndices.length :=
    hfns.trans List.length_append
  subst hreply
  cases hmaps : m.mapsResponse with
  | false =>
    obtain hsame := hm.sameSet hmaps v set _ hset
    refine ⟨⟨set, fun i => (reply.functions i).requested set i⟩, ?_, rfl,
      fun i => FnData.requested_requested set i _⟩
    rw [recastResponse, hmaps, if_neg (by decide), update,
      checkPartial_eq (Nat.zero_add _).le (by rw [hsame]; exact (Nat.zero_add _).le) hderivs]
    rfl
  | true =>
    have hprimary : ∃ f, transformPart m.primaryRespMapping subVars v reply set 0
        m.primaryRespMapIndices.length 0 = .ok f := by
      cases hp : m.primaryRespMapping with
      | some f => exact ⟨_, rfl⟩
      | none =>
        have hle := hm.primary hp
        rw [transformPart, checkPartial_eq (by omega) (by omega) hderivs]
        exact ⟨_, rfl⟩
    have hsecondary : ∃ f, transformPart m.secondaryRespMapping subVars v reply set
        m.primaryRespMapIndices.length m.secondaryRespMapIndices.length
        (reply.activeSet.numFns - m.secondaryRespMapIndices.length) = .ok f := by
      cases hs : m.secondaryRespMapping with
      | some f => exact ⟨_, rfl⟩
      | none =>
        have hle := hm.secondary hs
        rw [transformPart, checkPartial_eq (by omega) (by omega) hderivs]
        exact ⟨_, rfl⟩
    obtain ⟨f, hf⟩ := hprimary
    obtain ⟨g, hg⟩ := hsecondary
    refine ⟨⟨set, fun i =>
      ((if i < m.primaryRespMapIndices.length then f else g) i).requested set i⟩, ?_, rfl,
        fun i => FnData.requested_requested set i _⟩
    rw [recastResponse, hmaps, if_pos rfl, transformResponse, hf, hg]
    rfl

end RecastMappings

/-! ## The books -/

/-- An evaluation that waits in a recast model, and the response that it has. -/
structure Pending (V K : Type) where
  subId : Nat
  id : Nat
  /-- What the sub-model has for it. -/
  reply : Reply K
  set : ActiveSet
  vars : V
  subVars : V
  response : Reply K

/-- What `derived_synchronize` makes of the response of the sub-model. -/
def Pending.Due (m : RecastMappings V K) (p : Pending V K) : Prop :=
  if m.mapsResponse then
    m.transformResponse p.subVars p.vars p.reply p.set = .ok p.response ∧
      (m.variablesMapping = none → p.subVars = p.vars)
  else p.response = p.reply

/-- The maps for the response mappings. -/
structure Bookkept (m : RecastMappings V K) (ps : List (Pending V K)) (s : RecastState σ V K) :
    Prop where
  recastSetMap : s.recastSetMap = ps.map fun p => (p.id, p.set)
  recastVarsMap : s.recastVarsMap = ps.map fun p => (p.id, p.vars)
  subModelVarsMap : m.variablesMapping.isSome →
    s.subModelVarsMap = ps.map fun p => (p.id, p.subVars)

abbrev Pending.Increasing (ps : List (Pending V K)) : Prop :=
  ModelMaps.Increasing Pending.subId Pending.id ps

theorem Pending.Increasing.eq_of_id {ps : List (Pending V K)} {p p' : Pending V K}
    (h : Pending.Increasing ps) (hp : p ∈ ps) (hp' : p' ∈ ps) (heq : p.id = p'.id) : p = p' := by
  have hforward : ps.Pairwise fun p p' => p.id = p'.id → p = p' :=
    h.imp fun hlt heq => absurd heq hlt.2.ne
  have hback : ps.Pairwise (flip fun p p' => p.id = p'.id → p = p') :=
    h.imp fun hlt heq => absurd heq hlt.2.ne'
  exact hforward.forall_of_forall_of_flip (fun _ _ _ => rfl) hback hp hp' heq

section TransformMap

variable {m : RecastMappings V K} {s s' : RecastState σ V K} {kept ps : List (Pending V K)}
  {p : Pending V K} {res : IntResponseMap (Reply K)} {returned : Pending V K → Bool}

/-- The maps of the response mappings aside, the states are the same. -/
structure SameOtherwise (s s' : RecastState σ V K) : Prop where
  sub : s'.sub = s.sub
  currentVariables : s'.currentVariables = s.currentVariables
  recastModelEvalCntr : s'.recastModelEvalCntr = s.recastModelEvalCntr
  recastIdMap : s'.recastIdMap = s.recastIdMap
  maps : s'.maps = s.maps
  otherIds : s'.otherIds = s.otherIds

theorem SameOtherwise.refl (s : RecastState σ V K) : SameOtherwise s s :=
  ⟨rfl, rfl, rfl, rfl, rfl, rfl⟩

theorem SameOtherwise.trans {s'' : RecastState σ V K} (h : SameOtherwise s s')
    (h' : SameOtherwise s' s'') : SameOtherwise s s'' :=
  ⟨h'.sub.trans h.sub, h'.currentVariables.trans h.currentVariables,
    h'.recastModelEvalCntr.trans h.recastModelEvalCntr, h'.recastIdMap.trans h.recastIdMap,
    h'.maps.trans h.maps, h'.otherIds.trans h.otherIds⟩

/-- The response mappings use these maps only. -/
theorem Bookkept.of_eq (h : Bookkept m ps s) (hset : s'.recastSetMap = s.recastSetMap)
    (hvars : s'.recastVarsMap = s.recastVarsMap)
    (hsubVars : s'.subModelVarsMap = s.subModelVarsMap) : Bookkept m ps s' where
  recastSetMap := hset.trans h.recastSetMap
  recastVarsMap := hvars.trans h.recastVarsMap
  subModelVarsMap hmapping := hsubVars.trans (h.subModelVarsMap hmapping)

/-- The body of the loop finds the set and the variables of the evaluation. -/
theorem transformEntry_eq (hmaps : m.mapsResponse = true) (h : Pending.Increasing (kept ++ p :: ps))
    (hb : Bookkept m (kept ++ p :: ps) s) (hdue : p.Due m) (hres : res.Below p.id) :
    ∃ s', RecastState.transformEntry m (s, res) (p.id, p.reply) =
        .ok (s', res ++ [(p.id, p.response)]) ∧
      Bookkept m (kept ++ ps) s' ∧ SameOtherwise s s' := by
  have hid := h.imp fun h => h.2
  rw [Pending.Due, if_pos hmaps] at hdue
  have hset : s.recastSetMap.lookup p.id = some p.set := by rw [hb.recastSetMap, lookup_map hid]
  have hvars : s.recastVarsMap.lookup p.id = some p.vars := by
    rw [hb.recastVarsMap, lookup_map hid]
  have hsubVars : (if m.variablesMapping.isSome then s.subModelVarsMap.lookup p.id
      else s.recastVarsMap.lookup p.id) = some p.subVars := by
    split_ifs with hmapping
    · rw [hb.subModelVarsMap hmapping, lookup_map hid]
    · rw [hvars, hdue.2 (by simpa using hmapping)]
  refine ⟨{ s with
      recastSetMap := s.recastSetMap.eraseKey p.id
      recastVarsMap := s.recastVarsMap.eraseKey p.id
      subModelVarsMap := if m.variablesMapping.isSome then s.subModelVarsMap.eraseKey p.id
        else s.subModelVarsMap }, ?_, ⟨?_, ?_, fun hmapping => ?_⟩, rfl, rfl, rfl, rfl, rfl, rfl⟩
  · simp only [RecastState.transformEntry, hsubVars]
    simp only [hset, hvars, hdue.1, ok_bind, assign_append hres]
    rfl
  · show s.recastSetMap.eraseKey p.id = _
    rw [hb.recastSetMap, eraseKey_map hid]
  · show s.recastVarsMap.eraseKey p.id = _
    rw [hb.recastVarsMap, eraseKey_map hid]
  · show (if m.variablesMapping.isSome then s.subModelVarsMap.eraseKey p.id
      else s.subModelVarsMap) = _
    rw [if_pos hmapping, hb.subModelVarsMap hmapping, eraseKey_map hid]

variable (kept returned) in
/-- `transform_response_map` on the evaluations that are returned. -/
theorem transformResponseMap_eq (hmaps : m.mapsResponse = true)
    (h : Pending.Increasing (kept ++ ps)) (hb : Bookkept m (kept ++ ps) s)
    (hdue : ∀ p ∈ ps, p.Due m) (hres : ∀ p ∈ ps, res.Below p.id) :
    ∃ s', ((ps.filter returned).map fun p => (p.id, p.reply)).foldlM
        (RecastState.transformEntry m) (s, res) =
          .ok (s', res ++ (ps.filter returned).map fun p => (p.id, p.response)) ∧
      Bookkept m (kept ++ ps.filter fun p => !returned p) s' ∧ SameOtherwise s s' := by
  induction ps generalizing kept s res with
  | nil => exact ⟨s, by rw [List.filter_nil, List.map_nil, List.map_nil, List.append_nil]; rfl, hb,
      .refl s⟩
  | cons p ps ih =>
    obtain ⟨hdueHead, hdueTail⟩ := List.forall_mem_cons.mp hdue
    obtain ⟨hresHead, hresTail⟩ := List.forall_mem_cons.mp hres
    cases hc : returned p with
    | true =>
      obtain ⟨s₁, hstep, hb₁, hsame₁⟩ := transformEntry_eq hmaps h hb hdueHead hresHead
      have hkeep : Pending.Increasing (kept ++ ps) :=
        h.sublist (List.Sublist.append_left (List.sublist_cons_self p ps) kept)
      have hps := (List.pairwise_append.mp h).2.1
      obtain ⟨s', hloop, hb', hsame'⟩ := ih _ hkeep hb₁ hdueTail fun p' hp' =>
        (hresTail p' hp').concat ((List.pairwise_cons.mp hps).1 p' hp').2
      refine ⟨s', ?_, ?_, hsame₁.trans hsame'⟩
      · rw [List.filter_cons_of_pos hc, List.map_cons, List.map_cons, List.foldlM_cons, hstep,
          ok_bind, hloop, List.append_assoc]
        rfl
      · rwa [List.filter_cons_of_neg (by rw [hc]; decide)]
    | false =>
      have hassoc (l : List (Pending V K)) : kept ++ p :: l = (kept ++ [p]) ++ l := by
        rw [List.append_assoc]
        rfl
      rw [hassoc] at h hb
      rw [List.filter_cons_of_neg (by rw [hc]; decide), List.filter_cons_of_pos (by rw [hc]; rfl),
        hassoc]
      exact ih _ h hb hdueTail hresTail

end TransformMap

section Books

variable {M : AsynchModel σ V (Reply K)} {Holds : σ → IntResponseMap (Reply K) → Prop}
  {m : RecastMappings V K} {s : RecastState σ V K} {subW : IntResponseMap (Reply K)}
  {ps : List (Pending V K)} {sub' : σ} {complete : Nat → Bool}

variable (M Holds m) in
/-- What the maps of a recast model and its sub-model have of the evaluations that wait. -/
structure Books (s : RecastState σ V K) (subW : IntResponseMap (Reply K))
    (ps : List (Pending V K)) : Prop where
  shared : Shared M Holds s.sub subW
  stored : ∀ p ∈ ps, Stored M s.sub subW (p.subId, p.reply)
  due : ∀ p ∈ ps, p.Due m
  increasing : Pending.Increasing ps
  bound : ∀ p ∈ ps, p.id ≤ s.recastModelEvalCntr
  counters : s.maps.modelEvalCntr = s.recastModelEvalCntr
  recastIdMap : s.recastIdMap = ps.map fun p => (p.subId, p.id)
  bookkept : m.mapsResponse = true → Bookkept m ps s
  maps : s.maps.Has Pending.id Pending.id (fun _ => -1) ps
  otherIds : s.otherIds.Ordered
  otherBound : ∀ q ∈ s.otherIds, q.1 ≤ M.evaluationId s.sub
  disjoint : ∀ p ∈ ps, s.otherIds.lookup p.subId = none

theorem Stored.le (hcorrect : M.Correct Holds) {t : σ} (h : Shared M Holds t subW)
    {q : Nat × Reply K} (hq : Stored M t subW q) : q.1 ≤ M.evaluationId t :=
  hq.elim (hcorrect.bound h.holds q) (h.bound q)

/-- The sub-model does something that keeps what it has for the evaluations. -/
theorem Books.sub {subW' : IntResponseMap (Reply K)} (h : Books M Holds m s subW ps)
    (hshared : Shared M Holds sub' subW')
    (hstored : ∀ p ∈ ps, Stored M s.sub subW (p.subId, p.reply) →
      Stored M sub' subW' (p.subId, p.reply))
    (hid : M.evaluationId s.sub ≤ M.evaluationId sub') :
    Books M Holds m { s with sub := sub' } subW' ps :=
  { h with
    shared := hshared
    stored := fun p hp => hstored p hp (h.stored p hp)
    bookkept := fun hmaps => (h.bookkept hmaps).of_eq rfl rfl rfl
    otherBound := fun q hq => (h.otherBound q hq).trans hid }

theorem Books.kept (h : Books M Holds m s subW ps) (hk : M.Kept Holds subW s.sub sub') :
    Books M Holds m { s with sub := sub' } subW ps :=
  h.sub (h.shared.kept hk) (fun p _ => Or.imp_right fun hp => by rwa [hk.responses]) hk.evaluationId

/-- The evaluations that the sub-model returns. -/
def Pending.returned (resps : IntResponseMap (Reply K)) (p : Pending V K) : Bool :=
  !decide (∀ q ∈ resps, q.1 ≠ p.subId)

theorem Books.returned_iff (hcorrect : M.Correct Holds) (h : Books M Holds m s subW ps)
    (hk : M.Collected Holds complete subW s.sub sub') {p : Pending V K} (hp : p ∈ ps) :
    p.returned (M.responses sub').responseMap = true ↔
      (p.subId, p.reply) ∈ (M.responses sub').responseMap := by
  rw [Pending.returned, Bool.not_eq_true', decide_eq_false_iff_not]
  constructor
  · intro hret
    push Not at hret
    obtain ⟨q, hq, heq⟩ := hret
    rwa [← h.shared.eq_of_returned hcorrect hk (h.stored p hp) hq heq]
  · intro hmem hall
    exact hall _ hmem rfl

/-- The id map keeps what is not returned. -/
theorem Books.waiting_eq (h : Books M Holds m s subW ps) (resps : IntResponseMap (Reply K)) :
    waiting s.recastIdMap resps =
      (ps.filter fun p => !p.returned resps).map fun p => (p.subId, p.id) := by
  rw [waiting, h.recastIdMap, List.filter_map]
  congr 1
  refine List.filter_congr fun p _ => ?_
  exact (Bool.not_not _).symm

/-- The evaluations of the recast model come back with its ids. -/
theorem Books.rekeyed_eq (hcorrect : M.Correct Holds) (h : Books M Holds m s subW ps)
    (hk : M.Collected Holds complete subW s.sub sub') :
    rekeyed false id s.recastIdMap (M.responses sub').responseMap =
      (ps.filter (·.returned (M.responses sub').responseMap)).map fun p => (p.id, p.reply) := by
  obtain ⟨hord, -, -⟩ := h.shared.returned hcorrect hk
  have hids : s.recastIdMap.Ordered := by
    rw [h.recastIdMap]
    exact List.pairwise_map.mpr (h.increasing.imp fun h => h.1)
  have hmoved : MovedResponses false id s.recastIdMap (M.responses sub').responseMap
      (rekeyed false id s.recastIdMap (M.responses sub').responseMap) := moved_rekeyed hids hord
  have hmem {a b : Nat} : (a, b) ∈ s.recastIdMap ↔ ∃ p ∈ ps, p.subId = a ∧ p.id = b := by
    rw [h.recastIdMap, List.mem_map]
    exact exists_congr fun p => and_congr_right fun _ => Prod.mk.injEq _ _ _ _ ▸ .rfl
  refine hmoved.ordered.ext ?_ fun q => ⟨fun hq => ?_, fun hq => ?_⟩
  · exact List.pairwise_map.mpr
      ((h.increasing.sublist List.filter_sublist).imp fun h => h.2)
  · obtain ⟨subId, resp, hid, hresp, hstored⟩ := hmoved.sound q.1 q.2 hq
    obtain ⟨p, hp, rfl, hpid⟩ := hmem.mp hid
    have heq := h.shared.eq_of_returned hcorrect hk (h.stored p hp) hresp rfl
    refine List.mem_map.mpr ⟨p, List.mem_filter.mpr ⟨hp, ?_⟩, ?_⟩
    · exact (h.returned_iff hcorrect hk hp).mpr (heq ▸ hresp)
    · exact Prod.ext hpid ((congrArg Prod.snd heq).symm.trans hstored)
  · obtain ⟨p, hp, rfl⟩ := List.mem_map.mp hq
    obtain ⟨hp, hret⟩ := List.mem_filter.mp hp
    refine hmoved.complete p.subId p.id p.reply (hmem.mpr ⟨p, hp, rfl, rfl⟩)
      ((h.returned_iff hcorrect hk hp).mp hret) fun subId _ hid _ => ?_
    obtain ⟨p', hp', rfl, hpid⟩ := hmem.mp hid
    rw [h.increasing.eq_of_id hp' hp hpid]

/-- What a synchronization of a recast model does. -/
structure Synchronized (s s' : RecastState σ V K) (ps : List (Pending V K))
    (returned : Pending V K → Bool) : Prop where
  responseMap : s'.maps.responseMap = OrdMap.insertRange
    ((ps.filter returned).map fun p => (p.id, p.response)) s.maps.cachedResponseMap
  cachedResponseMap : s'.maps.cachedResponseMap = []
  modelEvalCntr : s'.maps.modelEvalCntr = s.maps.modelEvalCntr

/-- The responses of the sub-model become those of the recast model. -/
theorem Books.transformResponses_eq {t : RecastState σ V K} (h : Books M Holds m s subW ps)
    (returned : Pending V K → Bool) (hb : m.mapsResponse = true → Bookkept m ps t) :
    ∃ t', RecastState.transformResponses m t
        ((ps.filter returned).map fun p => (p.id, p.reply)) =
          .ok (t', (ps.filter returned).map fun p => (p.id, p.response)) ∧
      (m.mapsResponse = true → Bookkept m (ps.filter fun p => !returned p) t') ∧
        SameOtherwise t t' := by
  unfold RecastState.transformResponses
  cases hmaps : m.mapsResponse with
  | true =>
    obtain ⟨t', hloop, hb', hsame⟩ := transformResponseMap_eq [] returned hmaps h.increasing
      (hb hmaps) h.due fun _ _ => below_nil
    exact ⟨t', hloop, fun _ => hb', hsame⟩
  | false =>
    refine ⟨t, ?_, fun h => absurd h (by decide), .refl t⟩
    have hreply : ∀ p ∈ ps.filter returned, (p.id, p.reply) = (p.id, p.response) := by
      intro p hp
      have hdue := h.due p (List.mem_filter.mp hp).1
      rw [Pending.Due, hmaps, if_neg (by decide)] at hdue
      rw [hdue]
    rw [if_neg (by decide), List.map_congr_left hreply]

/-- A synchronization returns what the sub-model returns, and keeps the books. -/
theorem collect_books (hcorrect : M.Correct Holds) (h : Books M Holds m s subW ps)
    (hk : M.Collected Holds complete subW s.sub sub') :
    ∃ s', RecastState.collect M m s sub' = .ok s' ∧
      Books M Holds m s' (subW.filter fun p => !complete p.1)
        (ps.filter fun p => !p.returned (M.responses sub').responseMap) ∧
      Synchronized s s' ps (·.returned (M.responses sub').responseMap) := by
  obtain ⟨hord, -, hmem⟩ := h.shared.returned hcorrect hk
  have hids : s.recastIdMap.Ordered := by
    rw [h.recastIdMap]
    exact List.pairwise_map.mpr (h.increasing.imp fun h => h.1)
  obtain ⟨hshared, -⟩ := h.shared.rekey s.recastIdMap hcorrect hk
  have hid := (hcorrect.setResponses ((M.responses sub').handedOver
    (unmatched [s.recastIdMap] (M.responses sub').responseMap)) hk.holds).2.2
  have hrekey := rekeyResponseMap_eq false id hord hids
  rw [h.waiting_eq, h.rekeyed_eq hcorrect hk] at hrekey
  obtain ⟨t, hloop, hb, hsame⟩ := h.transformResponses_eq
    (·.returned (M.responses sub').responseMap)
    (t := { s with
      sub := M.setResponses ((M.responses sub').handedOver
        (unmatched [s.recastIdMap] (M.responses sub').responseMap)) sub'
      recastIdMap := (ps.filter fun p => !p.returned (M.responses sub').responseMap).map
        fun p => (p.subId, p.id) })
    fun hmaps => (h.bookkept hmaps).of_eq rfl rfl rfl
  have hincreasing : ModelMaps.Increasing Pending.id Pending.id ps :=
    h.increasing.imp fun h => ⟨h.2, h.2⟩
  have hcollect : s.maps.collect ((ps.filter (·.returned (M.responses sub').responseMap)).map
      fun p => (p.id, p.response)) = _ := ModelMaps.collect_eq hincreasing h.maps
  -- what is not returned is not complete, and waits in the sub-model
  have hstored : ∀ p ∈ ps.filter (fun p => !p.returned (M.responses sub').responseMap),
      (p.subId, p.reply) ∈ subW.filter fun p => !complete p.1 := by
    intro p hp
    obtain ⟨hp, hnot⟩ := List.mem_filter.mp hp
    have hnot' : (p.subId, p.reply) ∉ (M.responses sub').responseMap := fun hin => by
      rw [(h.returned_iff hcorrect hk hp).mpr hin] at hnot
      cases hnot
    rw [hmem, not_or, List.mem_filter, not_and] at hnot'
    have hw := (h.stored p hp).resolve_right hnot'.2
    exact List.mem_filter.mpr ⟨hw, by simpa using hnot'.1 hw⟩
  have hrun : RecastState.collect M m s sub' = .ok { t with
      maps := t.maps.collect ((ps.filter (·.returned (M.responses sub').responseMap)).map
        fun p => (p.id, p.response)) } := by
    rw [RecastState.collect, hrekey]
    dsimp only
    rw [hloop]
    rfl
  rw [hsame.maps, hcollect] at hrun
  refine ⟨_, hrun, ?_, rfl, rfl, rfl⟩
  obtain ⟨hsub, -, hcntr, hidMap, -, hothers⟩ := hsame
  have hsublist : ∀ {P : Pending V K → Prop}, (∀ p ∈ ps, P p) →
      ∀ p ∈ ps.filter (fun p => !p.returned (M.responses sub').responseMap), P p :=
    fun hP p hp => hP p (List.mem_filter.mp hp).1
  exact {
    shared := hsub ▸ hshared
    stored := fun p hp => .inl (hstored p hp)
    due := hsublist h.due
    increasing := h.increasing.sublist List.filter_sublist
    bound := hcntr ▸ hsublist h.bound
    counters := h.counters.trans hcntr.symm
    recastIdMap := hidMap
    bookkept := fun hmaps => (hb hmaps).of_eq rfl rfl rfl
    maps := ⟨rfl, rfl⟩
    otherIds := hothers ▸ h.otherIds
    otherBound := by
      show ∀ q ∈ t.otherIds, q.1 ≤ M.evaluationId t.sub
      rw [hothers, hsub, hid]
      exact fun q hq => (h.otherBound q hq).trans hk.evaluationId
    disjoint := hothers ▸ hsublist h.disjoint }

theorem Books.below (h : Books M Holds m s subW ps) {α : Type} {f : Pending V K → α} :
    Below (ps.map fun p => (p.id, f p)) (s.recastModelEvalCntr + 1) := by
  intro q hq
  obtain ⟨p, hp, rfl⟩ := List.mem_map.mp hq
  exact Nat.lt_succ_of_le (h.bound p hp)

/-- The set and the variables of a new evaluation. -/
theorem Books.bookkeep_eq {t : RecastState σ V K} {p : Pending V K} (h : Books M Holds m s subW ps)
    (ht : m.mapsResponse = true → Bookkept m ps t) (hid : p.id = s.recastModelEvalCntr + 1)
    (hvars : p.vars = t.currentVariables) (hsubVars : p.subVars = M.currentVariables t.sub) :
    SameOtherwise t (RecastState.bookkeep M m p.id p.set t) ∧
      (m.mapsResponse = true → Bookkept m (ps ++ [p]) (RecastState.bookkeep M m p.id p.set t)) := by
  unfold RecastState.bookkeep
  cases hmaps : m.mapsResponse with
  | false => exact ⟨.refl t, fun h => absurd h (by decide)⟩
  | true =>
    obtain ⟨hset, hvarsMap, hsubVarsMap⟩ := ht hmaps
    have hbelow {α : Type} {f : Pending V K → α} : Below (ps.map fun p => (p.id, f p)) p.id :=
      hid ▸ h.below
    refine ⟨⟨rfl, rfl, rfl, rfl, rfl, rfl⟩, fun _ => ⟨?_, ?_, fun hmapping => ?_⟩⟩
    · rw [List.map_append, ← hset]
      exact assign_append (hset ▸ hbelow)
    · rw [List.map_append, ← hvarsMap, if_pos rfl, ← hvars]
      exact assign_append (hvarsMap ▸ hbelow)
    · rw [List.map_append, ← hsubVarsMap hmapping, if_pos rfl, ← hsubVars]
      dsimp only
      rw [if_pos hmapping]
      exact assign_append (hsubVarsMap hmapping ▸ hbelow)

/-- A new evaluation in the maps. -/
theorem Books.push {t : RecastState σ V K} {p : Pending V K} (hcorrect : M.Correct Holds)
    (h : Books M Holds m s subW ps) (hshared : Shared M Holds t.sub (subW ++ [(p.subId, p.reply)]))
    (hresponses : M.responses t.sub = M.responses s.sub)
    (hsubId : p.subId = M.evaluationId t.sub) (hlt : M.evaluationId s.sub < M.evaluationId t.sub)
    (hid : p.id = s.recastModelEvalCntr + 1) (hdue : p.Due m)
    (hcntr : t.recastModelEvalCntr = s.recastModelEvalCntr + 1)
    (hidMap : t.recastIdMap = s.recastIdMap.assign p.subId p.id)
    (hmaps : t.maps = s.maps.start p.id (-1)) (hothers : t.otherIds = s.otherIds)
    (hbookkept : m.mapsResponse = true → Bookkept m (ps ++ [p]) t) :
    Books M Holds m t (subW ++ [(p.subId, p.reply)]) (ps ++ [p]) := by
  have hsubLt (q : Pending V K) (hq : q ∈ ps) : q.subId < p.subId :=
    ((h.stored q hq).le hcorrect h.shared).trans_lt (hsubId ▸ hlt)
  have hbelow : s.recastIdMap.Below p.subId := by
    rw [h.recastIdMap]
    intro q hq
    obtain ⟨p', hp', rfl⟩ := List.mem_map.mp hq
    exact hsubLt p' hp'
  have hforall {P : Pending V K → Prop} (hP : ∀ q ∈ ps, P q) (hp : P p) : ∀ q ∈ ps ++ [p], P q :=
    List.forall_mem_append.mpr ⟨hP, List.forall_mem_singleton.mpr hp⟩
  exact {
    shared := hshared
    stored := hforall (fun q hq => (h.stored q hq).imp (List.mem_append_left _)
      fun hq => by rwa [hresponses]) (.inl (List.mem_append_right _ (List.mem_singleton.mpr rfl)))
    due := hforall h.due hdue
    increasing := List.pairwise_append.mpr ⟨h.increasing, List.pairwise_singleton _ _,
      fun q hq p' hp' => by
        rw [List.mem_singleton.mp hp']
        exact ⟨hsubLt q hq, hid ▸ Nat.lt_succ_of_le (h.bound q hq)⟩⟩
    bound := by
      rw [hcntr]
      exact hforall (fun q hq => (h.bound q hq).trans (Nat.le_succ _)) hid.le
    counters := by
      rw [hmaps, hcntr]
      exact congrArg Nat.succ h.counters
    recastIdMap := by
      rw [hidMap, List.map_append, ← h.recastIdMap]
      exact assign_append hbelow
    bookkept := hbookkept
    maps := by
      rw [hmaps, hid]
      unfold ModelMaps.start
      rw [h.counters, h.maps.rawEvalIdMap, h.maps.numFDEvalsMap]
      refine ⟨?_, ?_⟩
      · rw [List.map_append, ← hid]
        exact assign_append (hid ▸ h.below)
      · rw [List.map_append, ← hid]
        exact assign_append (hid ▸ h.below)
    otherIds := hothers ▸ h.otherIds
    otherBound := by
      rw [hothers]
      exact fun q hq => (h.otherBound q hq).trans hlt.le
    disjoint := by
      rw [hothers]
      exact hforall h.disjoint
        (lookup_of_below fun q hq => (h.otherBound q hq).trans_lt (hsubId ▸ hlt)) }

end Books

end Recast

end Dakota
