import Dakota.Recast.Books

/-!
# A recast model keeps the contract of its sub-model

`recast_evaluateNowait`, `recast_collect`, `recast_otherUsers`: the parts of the contract, each from
the one of the sub-model. `recast_correct`: the contract. `nest_correct`: that of a base model that
is recast several times.
-/

namespace Dakota

namespace Recast

open OrdMap Outcome Rekey

variable {σ V K : Type}

section Books

variable {M : AsynchModel σ V (Reply K)} {Holds : σ → IntResponseMap (Reply K) → Prop}
  {m : RecastMappings V K} {s : RecastState σ V K} {subW : IntResponseMap (Reply K)}
  {ps : List (Pending V K)} {sub' : σ} {complete : Nat → Bool}

variable (M Holds m) in
def RecastHolds (s : RecastState σ V K) (w : IntResponseMap (Reply K)) : Prop :=
  ∃ subW ps, Books M Holds m s subW ps ∧ w = ps.map fun p => (p.id, p.response)

variable {set subSet : ActiveSet}

/-- The sub-model gets the variables of the evaluation. -/
theorem Books.toTransformed (hcorrect : M.Correct Holds) (h : Books M Holds m s subW ps) :
    M.Kept Holds subW s.sub (s.transformed M m) ∧ M.currentVariables (s.transformed M m) =
      m.transformVariables s.currentVariables (M.currentVariables s.sub) :=
  hcorrect.setCurrentVariables _ h.shared.holds

theorem recast_evaluate (hcorrect : M.Correct Holds) (hm : m.Uniform)
    (h : Books M Holds m s subW ps) : Meets AsynchModel.WrongSize (fun r =>
      Books M Holds m r.1 subW ps ∧ r.1.currentVariables = s.currentVariables ∧
        r.1.maps = { s.maps with modelEvalCntr := s.maps.modelEvalCntr + 1 } ∧ r.2.Exact set)
      (s.evaluate M m set) := by
  obtain ⟨hk, -⟩ := h.toTransformed hcorrect
  refine (RecastMappings.meets_transformSet hm).self.bind fun subSet hset => ?_
  refine (hcorrect.evaluate subSet hk.holds).bind fun r hr => ?_
  obtain ⟨hkept, -, hexact⟩ := hr
  obtain ⟨response, hresponse, hexact'⟩ := RecastMappings.recastResponse_ok hm hset.1
    (M.currentVariables r.1) hexact.activeSet
  have hbooks := h.kept (hk.trans hkept)
  show Meets _ _ (m.recastResponse _ _ r.2 set >>= _)
  rw [hresponse]
  refine ⟨{ hbooks with
    bound := fun p hp => (h.bound p hp).trans (Nat.le_succ _)
    counters := congrArg Nat.succ h.counters
    bookkept := fun hmaps => (h.bookkept hmaps).of_eq rfl rfl rfl
    maps := ⟨h.maps.rawEvalIdMap, h.maps.numFDEvalsMap⟩ }, rfl, rfl, hexact'⟩

/-- `evaluate` in the state in which the sub-model is asked. -/
theorem evaluate_eq {sub : σ} {reply response : Reply K}
    (hset : m.transformSet s.currentVariables set = .ok subSet)
    (hsub : M.evaluate subSet (s.transformed M m) = .ok (sub, reply))
    (hresponse : m.recastResponse (M.currentVariables sub) s.currentVariables reply set =
      .ok response) :
    ∃ s₁, s.evaluate M m set = .ok (s₁, response) := by
  refine ⟨{ s with
    sub
    recastModelEvalCntr := s.recastModelEvalCntr + 1
    maps := { s.maps with modelEvalCntr := s.maps.modelEvalCntr + 1 } }, ?_⟩
  rw [RecastState.evaluate, hset, ok_bind, hsub, ok_bind]
  show m.recastResponse _ _ reply set >>= _ = _
  rw [hresponse]
  rfl

/-- The response that a new evaluation has is the one that `evaluate` has for it. -/
theorem recast_evaluateNowait (hcorrect : M.Correct Holds) (hm : m.Uniform)
    (h : Books M Holds m s subW ps) :
    Meets AsynchModel.WrongSize (fun t => ∃ s₁ p, s.evaluate M m set = .ok (s₁, p.response) ∧
      Books M Holds m t (subW ++ [(p.subId, p.reply)]) (ps ++ [p]) ∧
        p.id = s.recastModelEvalCntr + 1 ∧ t.currentVariables = s.currentVariables ∧
          t.maps = s.maps.start p.id (-1)) (s.evaluateNowait M m set) := by
  obtain ⟨hk, hvars⟩ := h.toTransformed hcorrect
  refine (RecastMappings.meets_transformSet hm).self.bind fun subSet hset => ?_
  refine (hcorrect.evaluateNowait subSet hk.holds).bind fun sub' hstart => ?_
  obtain ⟨s₁, reply, hrun, hshared⟩ := (h.shared.kept hk).started hstart
  obtain ⟨-, hvars₁, hexact⟩ := (hcorrect.evaluate subSet hk.holds).of_ok hrun
  obtain ⟨response, hresponse, -⟩ := RecastMappings.recastResponse_ok hm hset.1
    (M.currentVariables s₁) hexact.activeSet
  obtain ⟨s₂, heval⟩ := evaluate_eq hset.1 hrun hresponse
  have hsubVars : M.currentVariables sub' = M.currentVariables s₁ :=
    hstart.currentVariables.trans hvars₁.symm
  let p : Pending V K := ⟨M.evaluationId sub', s.recastModelEvalCntr + 1, reply, set,
    s.currentVariables, M.currentVariables sub', response⟩
  have hdue : p.Due m := by
    unfold Pending.Due
    cases hmaps : m.mapsResponse with
    | true =>
      rw [RecastMappings.recastResponse, if_pos hmaps, ← hsubVars] at hresponse
      refine ⟨hresponse, fun hmapping => ?_⟩
      show M.currentVariables sub' = s.currentVariables
      rw [hsubVars, hvars₁, hvars, RecastMappings.transformVariables, hmapping]
      exact hm.sameVars hmaps hmapping _ _
    | false =>
      rw [RecastMappings.recastResponse, hmaps, if_neg (by decide)] at hresponse
      have hsame := hm.sameSet hmaps _ _ _ hset.1
      exact update_exact (hsame ▸ hexact) hresponse
  obtain ⟨hsame, hbook⟩ := h.bookkeep_eq (M := M) (p := p) (t := { s with
    sub := sub'
    recastModelEvalCntr := s.recastModelEvalCntr + 1
    recastIdMap := s.recastIdMap.assign (M.evaluationId sub') (s.recastModelEvalCntr + 1)
    maps := s.maps.start (s.recastModelEvalCntr + 1) (-1) })
    (fun hmaps => (h.bookkept hmaps).of_eq rfl rfl rfl) rfl rfl rfl
  obtain ⟨hsub, hcurrent, hcntr, hidMap, hmaps, hothers⟩ := hsame
  refine ⟨s₂, p, heval, h.push hcorrect ?_ ?_ ?_ ?_ rfl hdue hcntr hidMap hmaps hothers hbook, rfl,
    hcurrent, hmaps⟩ <;> rw [hsub]
  · exact hshared
  · exact hstart.responses.trans hk.responses
  · exact hk.evaluationId.trans_lt hstart.evaluationId

/-- Other users of the sub-model leave the evaluations there. -/
theorem Books.otherRekey (hcorrect : M.Correct Holds) (h : Books M Holds m s subW ps)
    (hk : M.Collected Holds complete subW s.sub sub') :
    Books M Holds m { s with
        sub := M.setResponses (rekeyResponseMap false id (M.responses sub') s.otherIds).1 sub'
        otherIds := (rekeyResponseMap false id (M.responses sub') s.otherIds).2.1 }
      (subW.filter fun p => !complete p.1) ps := by
  obtain ⟨hord, -, -⟩ := h.shared.returned hcorrect hk
  obtain ⟨hshared, hstored⟩ := h.shared.rekey s.otherIds hcorrect hk
  have hid := (hcorrect.setResponses ((M.responses sub').handedOver
    (unmatched [s.otherIds] (M.responses sub').responseMap)) hk.holds).2.2
  rw [rekeyResponseMap_eq false id hord h.otherIds]
  have hbooks := h.sub hshared (fun p hp hstore => hstored _ hstore (h.disjoint p hp))
    (hk.evaluationId.trans_eq hid.symm)
  have hsublist : (waiting s.otherIds (M.responses sub').responseMap).Sublist s.otherIds :=
    List.filter_sublist
  exact { hbooks with
    bookkept := fun hmaps => (h.bookkept hmaps).of_eq rfl rfl rfl
    otherIds := h.otherIds.sublist hsublist
    otherBound := fun q hq => hbooks.otherBound q (hsublist.subset hq)
    disjoint := fun p hp => lookup_eq_none_iff.mpr fun q hq =>
      lookup_eq_none_iff.mp (h.disjoint p hp) q (hsublist.subset hq) }

theorem recast_otherUsers (hcorrect : M.Correct Holds) (h : Books M Holds m s subW ps)
    (op : OtherOp V) : Meets AsynchModel.WrongSize (fun t => (∃ subW', Books M Holds m t subW' ps) ∧
      t.maps = s.maps) (s.otherUsers M op) := by
  cases op with
  | evaluate vars set =>
    obtain ⟨hk, -⟩ := hcorrect.setCurrentVariables vars h.shared.holds
    refine (hcorrect.evaluate set hk.holds).bind fun r hr => ?_
    exact ⟨⟨subW, h.kept (hk.trans hr.1)⟩, rfl⟩
  | evaluateNowait vars set =>
    obtain ⟨hk, -⟩ := hcorrect.setCurrentVariables vars h.shared.holds
    refine (hcorrect.evaluateNowait set hk.holds).bind fun sub' hstart => ?_
    obtain ⟨s₁, reply, -, hshared⟩ := (h.shared.kept hk).started hstart
    have hlt := hk.evaluationId.trans_lt hstart.evaluationId
    have hbooks := h.sub hshared (fun p _ hp => hp.imp (List.mem_append_left _)
      fun hp => by rwa [hstart.responses, hk.responses]) hlt.le
    refine ⟨⟨_, { hbooks with
      bookkept := fun hmaps => (h.bookkept hmaps).of_eq rfl rfl rfl
      otherIds := h.otherIds.assign
      otherBound := ?_
      disjoint := ?_ }⟩, rfl⟩
    · show ∀ q ∈ s.otherIds.assign (M.evaluationId sub') (M.evaluationId sub'), _
      rw [assign_append fun q hq => (h.otherBound q hq).trans_lt hlt]
      exact List.forall_mem_append.mpr ⟨hbooks.otherBound, List.forall_mem_singleton.mpr le_rfl⟩
    · intro p hp
      show (s.otherIds.assign (M.evaluationId sub') (M.evaluationId sub')).lookup p.subId = none
      rw [lookup_assign, if_neg (((h.stored p hp).le hcorrect h.shared).trans_lt hlt).ne]
      exact h.disjoint p hp
  | synchronize =>
    obtain ⟨sub', hrun, hk⟩ := hcorrect.synchronize h.shared.holds
    refine meets_of_exists ⟨_, ?_, ⟨_, h.otherRekey hcorrect hk⟩, rfl⟩
    rw [RecastState.otherUsers, hrun]
    rfl
  | synchronizeNowait completed =>
    obtain ⟨sub', returned, hrun, hk⟩ := hcorrect.synchronizeNowait completed h.shared.holds
    refine meets_of_exists ⟨_, ?_, ⟨_, h.otherRekey hcorrect hk⟩, rfl⟩
    rw [RecastState.otherUsers, hrun]
    rfl

/-- A choice of the evaluations that wait is a choice of their ids. -/
theorem Pending.Increasing.exists_ids (h : Pending.Increasing ps) (returned : Pending V K → Bool) :
    ∃ ids : Nat → Bool, ∀ p ∈ ps, ids p.id = returned p := by
  refine ⟨fun n => ps.any fun p => p.id == n && returned p, fun p hp => ?_⟩
  rw [Bool.eq_iff_iff, List.any_eq_true]
  constructor
  · rintro ⟨p', hp', hand⟩
    obtain ⟨hid, hret⟩ := (Bool.and_eq_true _ _).mp hand
    rwa [← h.eq_of_id hp' hp (beq_iff_eq.mp hid)]
  · exact fun hret => ⟨p, hp, by rw [hret, beq_self_eq_true]; rfl⟩

theorem filter_responses (ids : Nat → Bool) {returned : Pending V K → Bool}
    (h : ∀ p ∈ ps, ids p.id = returned p) :
    (ps.map fun p => (p.id, p.response)).filter (fun q => ids q.1) =
      (ps.filter returned).map fun p => (p.id, p.response) := by
  rw [List.filter_map]
  exact congrArg _ (List.filter_congr h)

/-- What the synchronizations have in common. -/
theorem recast_collect (ids : Nat → Bool) (hcorrect : M.Correct Holds)
    (h : Books M Holds m s subW ps) (hk : M.Collected Holds complete subW s.sub sub')
    (hids : ∀ p ∈ ps, ids p.id = p.returned (M.responses sub').responseMap) :
    ∃ s', RecastState.collect M m s sub' = .ok s' ∧ (recast M m).Collected (RecastHolds M Holds m)
      ids (ps.map fun p => (p.id, p.response)) s s' := by
  obtain ⟨s', hrun, hbooks, hsync⟩ := collect_books hcorrect h hk
  refine ⟨s', hrun, ⟨_, _, hbooks, ?_⟩, ?_, hsync.modelEvalCntr.ge⟩
  · exact filter_responses (fun n => !ids n) fun p hp => congrArg _ (hids p hp)
  · rw [filter_responses ids hids]
    show MetaObject.mk s'.maps.responseMap s'.maps.cachedResponseMap = _
    rw [hsync.responseMap, hsync.cachedResponseMap]
    rfl

/-- A recast model keeps the contract of its sub-model. -/
theorem recast_correct (hcorrect : M.Correct Holds) (hm : m.Uniform) :
    (recast M m).Correct (RecastHolds M Holds m) where
  ordered {s w} h := by
    obtain ⟨subW, ps, hbooks, rfl⟩ := h
    exact List.pairwise_map.mpr (hbooks.increasing.imp fun h => h.2)
  bound {s w} h := by
    obtain ⟨subW, ps, hbooks, rfl⟩ := h
    intro q hq
    obtain ⟨p, hp, rfl⟩ := List.mem_map.mp hq
    exact (hbooks.bound p hp).trans_eq hbooks.counters.symm
  setCurrentVariables {s w} v h := by
    obtain ⟨subW, ps, hbooks, rfl⟩ := h
    refine ⟨⟨⟨subW, ps, { hbooks with bookkept := fun hmaps => ?_ }, rfl⟩, rfl, le_rfl⟩, rfl⟩
    exact (hbooks.bookkept hmaps).of_eq rfl rfl rfl
  setResponses {s w} o h := by
    obtain ⟨subW, ps, hbooks, rfl⟩ := h
    refine ⟨⟨subW, ps, { hbooks with bookkept := fun hmaps => ?_, maps := ?_ }, rfl⟩, rfl, rfl⟩
    · exact (hbooks.bookkept hmaps).of_eq rfl rfl rfl
    · exact ⟨hbooks.maps.rawEvalIdMap, hbooks.maps.numFDEvalsMap⟩
  evaluate {s w} set h := by
    obtain ⟨subW, ps, hbooks, rfl⟩ := h
    refine (recast_evaluate hcorrect hm hbooks).imp (fun _ he => he) fun r hr => ?_
    obtain ⟨hbooks', hvars, hmaps, hexact⟩ := hr
    refine ⟨⟨⟨subW, ps, hbooks', rfl⟩, ?_, ?_⟩, hvars, hexact⟩
    · show MetaObject.mk r.1.maps.responseMap r.1.maps.cachedResponseMap = _
      rw [hmaps]
      rfl
    · show s.maps.modelEvalCntr ≤ r.1.maps.modelEvalCntr
      rw [hmaps]
      exact Nat.le_succ _
  evaluateNowait {s w} set h := by
    obtain ⟨subW, ps, hbooks, rfl⟩ := h
    refine (recast_evaluateNowait hcorrect hm hbooks).imp (fun _ he => he) fun t ht => ?_
    obtain ⟨s₁, p, heval, hbooks', hid, hvars, hmaps⟩ := ht
    have hcntr : t.maps.modelEvalCntr = p.id := by
      rw [hmaps, hid, ← hbooks.counters]
      rfl
    refine ⟨⟨s₁, p.response, heval, _, _, hbooks', ?_⟩, ?_, ?_, hvars⟩
    · show _ ++ [(t.maps.modelEvalCntr, p.response)] = _
      rw [hcntr, List.map_append]
      rfl
    · show MetaObject.mk t.maps.responseMap t.maps.cachedResponseMap = _
      rw [hmaps]
      rfl
    · show s.maps.modelEvalCntr < t.maps.modelEvalCntr
      rw [hcntr, hid, hbooks.counters]
      exact Nat.lt_succ_self _
  synchronize {s w} h := by
    obtain ⟨subW, ps, hbooks, rfl⟩ := h
    obtain ⟨sub', hsub, hk⟩ := hcorrect.synchronize hbooks.shared.holds
    obtain ⟨-, -, hmem⟩ := hbooks.shared.returned hcorrect hk
    have hall : ∀ p ∈ ps, true = p.returned (M.responses sub').responseMap := by
      intro p hp
      refine ((hbooks.returned_iff hcorrect hk hp).mpr ((hmem _).mpr ?_)).symm
      exact (hbooks.stored p hp).imp_left fun hp => List.mem_filter.mpr ⟨hp, rfl⟩
    obtain ⟨s', hrun, hcollected⟩ := recast_collect (fun _ => true) hcorrect hbooks hk hall
    refine ⟨s', ?_, hcollected⟩
    show (do RecastState.collect M m s (← M.synchronize s.sub)) = _
    rw [hsub]
    exact hrun
  synchronizeNowait {s w} completed h := by
    obtain ⟨subW, ps, hbooks, rfl⟩ := h
    obtain ⟨sub', returned, hsub, hk⟩ := hcorrect.synchronizeNowait completed hbooks.shared.holds
    obtain ⟨ids, hids⟩ := hbooks.increasing.exists_ids (·.returned (M.responses sub').responseMap)
    obtain ⟨s', hrun, hcollected⟩ := recast_collect ids hcorrect hbooks hk hids
    refine ⟨s', ids, ?_, hcollected⟩
    show (do RecastState.collect M m s (← M.synchronizeNowait completed s.sub)) = _
    rw [hsub]
    exact hrun
  others {s w} level op h := by
    obtain ⟨subW, ps, hbooks, rfl⟩ := h
    cases level with
    | zero =>
      refine (recast_otherUsers hcorrect hbooks op).imp (fun _ he => he) fun t ht => ?_
      obtain ⟨⟨subW', hbooks'⟩, hmaps⟩ := ht
      refine ⟨⟨subW', ps, hbooks', rfl⟩, ?_, ?_⟩
      · show MetaObject.mk t.maps.responseMap t.maps.cachedResponseMap = _
        rw [hmaps]
        rfl
      · show s.maps.modelEvalCntr ≤ t.maps.modelEvalCntr
        rw [hmaps]
    | succ level =>
      refine (hcorrect.others level op hbooks.shared.holds).bind fun sub' hk => ?_
      exact ⟨⟨subW, ps, hbooks.kept hk, rfl⟩, rfl, le_rfl⟩

end Books

/-! ## Recast models of recast models -/

/-- The evaluations that wait in a base model that is recast several times. -/
def NestHolds (F : V → Nat → FnData K) :
    (ms : List (RecastMappings V K)) → NestState V K ms → IntResponseMap (Reply K) → Prop
  | [] => BaseHolds
  | m :: ms => RecastHolds (nest F ms) (NestHolds F ms) m

theorem nest_correct (F : V → Nat → FnData K) {ms : List (RecastMappings V K)}
    (h : ∀ m ∈ ms, m.Uniform) : (nest F ms).Correct (NestHolds F ms) := by
  induction ms with
  | nil => exact base_correct F
  | cons m ms ih =>
    obtain ⟨hm, hms⟩ := List.forall_mem_cons.mp h
    exact recast_correct (ih hms) hm

theorem nestHolds_start (F : V → Nat → FnData K) (v : V) (ms : List (RecastMappings V K)) :
    NestHolds F ms (NestState.start v ms) [] ∧
      (nest F ms).responses (NestState.start v ms) = ⟨[], []⟩ := by
  induction ms with
  | nil => exact ⟨⟨rfl, ordered_nil, fun p hp => (List.not_mem_nil hp).elim⟩, rfl⟩
  | cons m ms ih =>
    obtain ⟨hholds, hresponses⟩ := ih
    have hshared : Shared (nest F ms) (NestHolds F ms) (NestState.start v ms) [] := by
      refine ⟨hholds, ?_, fun p hp => (List.not_mem_nil hp).elim, ?_⟩ <;> rw [hresponses]
      · exact ordered_nil
      · exact fun q hq => (List.not_mem_nil hq).elim
    exact ⟨⟨[], [], {
      shared := hshared
      stored := fun p hp => (List.not_mem_nil hp).elim
      due := fun p hp => (List.not_mem_nil hp).elim
      increasing := .nil
      bound := fun p hp => (List.not_mem_nil hp).elim
      counters := rfl
      recastIdMap := rfl
      bookkept := fun _ => ⟨rfl, rfl, fun _ => rfl⟩
      maps := ⟨rfl, rfl⟩
      otherIds := ordered_nil
      otherBound := fun q hq => (List.not_mem_nil hq).elim
      disjoint := fun p hp => (List.not_mem_nil hp).elim }, rfl⟩, rfl⟩

end Recast

end Dakota
