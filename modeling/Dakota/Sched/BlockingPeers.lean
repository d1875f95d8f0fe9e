import Dakota.Sched.BlockingMaster

/-!
# Local and static peer schedules

Correctness of `asynchronous_local_evaluations` and `peer_static_schedule_evaluations`. The latter
sends the remote jobs of its round robin, evaluates its own share, asynchronously or one by one,
and then receives all the responses.
-/

namespace Dakota.Sched

open Ledger

variable {J R : Type} {cfg : Config} {limit : Nat → ℕ∞} {sim : Nat × J → R} {base : IntMap R}
  {queue : IntMap J} {st st' : State J R} {ls : LoopState J R}

/-- `asynchronous_local_evaluations` -/
theorem asynchronousLocal_correct (h : Fresh cfg.blockingLimit sim base queue st) :
    (asynchronousLocal cfg sim queue).Correct cfg.blockingLimit st (Complete sim base queue) := by
  obtain ⟨ls₀, hstart, h₀⟩ := localStart_spec Config.blockingLimit_zero (L := queue) id h.inv
    h.pending (fun hid hn => absurd hid hn) h.running
  refine Scheduler.correct_of_sound _ _ hstart (localLoop_sound Config.blockingLimit_zero id) h₀
    (fun ls hi => hi.inv.valid) fun ls hi hd => ?_
  obtain ⟨hdone, -⟩ := hi.of_done hd
  exact ⟨ls.st, rfl, hi.inv.valid, hi.inv.complete hdone hi.running⟩

/-- Blocking evaluations of pending jobs, one at a time. -/
theorem evaluateSynchLocal_all (prps : List (Nat × J)) (h : Inv limit sim base queue st)
    (hlim : 0 < limit 0) (hactive : st.asynchLocalActivePRPQueue = ∅)
    (hjobs : ∀ p ∈ prps, queue[p.1]? = some p.2 ∧ st.status p.1 = .pending)
    (hnodup : (prps.map Prod.fst).Nodup) :
    let st' := prps.foldl (State.evaluateSynchLocal sim) st
    Inv limit sim base queue st' ∧ st'.recvRequests = st.recvRequests ∧
      st'.msgPassRunningMap = st.msgPassRunningMap ∧
      (∀ p ∈ prps, st'.status p.1 = .done) ∧
      ∀ id ∉ prps.map Prod.fst, st'.status id = st.status id := by
  induction prps generalizing st with
  | nil => exact ⟨h, rfl, rfl, by simp, fun _ _ => rfl⟩
  | cons prp prps ih =>
    rw [List.map_cons, List.nodup_cons] at hnodup
    obtain ⟨hq, hp⟩ := hjobs prp List.mem_cons_self
    have h₁ := h.evaluateSynchLocal hq hp (by rw [hactive, Std.ExtTreeMap.size_empty]; exact hlim)
    have hstat {id : Nat} (hne : id ≠ prp.1) :
        (st.evaluateSynchLocal sim prp).status id = st.status id :=
      (status_cons_of_ne hne).trans (status_cons_of_ne hne)
    obtain ⟨hinv, hreq, hmsg, hdone, hsame⟩ := ih h₁ hactive (fun p hm => by
      rw [hstat fun he => hnodup.1 (he ▸ List.mem_map_of_mem hm)]
      exact hjobs p (List.mem_cons_of_mem _ hm)) hnodup.2
    refine ⟨hinv, hreq, hmsg, fun p hm => ?_, fun id hn => ?_⟩
    · rcases List.mem_cons.mp hm with rfl | hm
      · refine (hsame _ hnodup.1).trans ?_
        exact status_finish_self
      · exact hdone p hm
    · simp only [List.map_cons, List.mem_cons, not_or] at hn
      exact (hsame id hn.2).trans (hstat hn.1)

/-- `peer_static_schedule_evaluations` -/
theorem peerStatic_correct (hN : 2 ≤ cfg.numEvalServers)
    (hc : 1 ≤ cfg.asynchLocalEvalConcurrency) (hlimit : ∀ s ≠ 0, cfg.blockingLimit s = ⊤)
    (h : Fresh cfg.blockingLimit sim base queue st) :
    (peerStatic cfg sim queue).Correct cfg.blockingLimit st (Complete sim base queue) := by
  set plan := robinPlan cfg queue.toList 1 0 with hplan
  set L := robinLocal cfg queue.toList 1 ∅ with hLdef
  have hnd := IntMap.nodup_map_fst_toList (m := queue)
  have hsend : Sendable (turn (cfg.numEvalServers - 1)) plan.length queue st plan :=
    sendable_robinPlan hN (.refl _) h.pending h.requests le_rfl
  obtain ⟨hinv, -, hreq, -, hsame, hrun⟩ := sendPlan_spec false h.inv h.layout
    (fun s hs => by rw [hlimit s hs]; exact le_top) hsend
  set st₁ := sendPlan false plan st with hst₁
  have hmsg : st₁.msgPassRunningMap = ∅ := by
    rw [hst₁, sendPlan_false_running, h.running]
  have hL {id : Nat} {job : J} (hj : L[id]? = some job) :
      queue[id]? = some job ∧ id ∉ planIds plan := by
    rcases robinLocal_sound hnd (b := 0) hj with h0 | ⟨hm, hn⟩
    · simp at h0
    · exact ⟨IntMap.mem_toList.mp hm, hn⟩
  have hpend (id : Nat) (hid : id ∈ L) : st₁.status id = .pending := by
    obtain ⟨job, hj⟩ := IntMap.mem_iff.mp hid
    rw [hsame id (hL hj).2, h.pending id (IntMap.mem_of_get? (hL hj).1)]
  have hsent {id : Nat} (hid : id ∈ queue) (hn : id ∉ L) : ∃ a ∈ plan, a.prp.1 = id := by
    obtain ⟨job, hj⟩ := IntMap.mem_iff.mp hid
    by_contra hno
    refine hn (IntMap.mem_of_get? (robinLocal_complete hnd (i := 1) (b := 0) (L := ∅)
      (IntMap.mem_toList.mpr hj) fun hm => hno ?_))
    exact List.mem_map.mp hm
  have hremote {id : Nat} (hid : id ∈ queue) (hn : id ∉ L) :
      ∃ s ≠ 0, st₁.status id = .running s := by
    obtain ⟨a, ha, rfl⟩ := hsent hid hn
    exact ⟨a.server, (hsend.server a ha).2.2, hrun a ha⟩
  -- The receives, once the local jobs are done.
  have hfinish {ls : LoopState J R} (hi : Inv cfg.blockingLimit sim base queue ls.st)
      (hreqs : ls.st.recvRequests = st₁.recvRequests) (hm : ls.st.msgPassRunningMap = ∅)
      (hdone : ∀ id ∈ L, ls.st.status id = .done) :
      ∃ st', (peerStatic cfg sim queue).finish ls = .ok st' ∧ Valid cfg.blockingLimit st'.log ∧
        Complete sim base queue st' := by
    obtain ⟨st', hok, hinv', -, hmsg', hdone', hother⟩ := receivePlan_spec hi hsend.buffers
      fun a ha => by rw [hreqs]; exact hreq a ha
    refine ⟨st'.clearBuffers, ?_, hinv'.valid, (hinv'.complete (fun id hid => ?_)
      (hmsg'.trans hm)).clearBuffers⟩
    · simp only [peerStatic, receiveRoundRobin_eq, bind, Except.bind, pure, Except.pure]
      rw [← hplan, hok]
    · by_cases hidL : id ∈ L
      · by_cases hp : id ∈ planIds plan
        · exact hdone' id hp
        · rw [hother id hp, hdone id hidL]
      · obtain ⟨a, ha, rfl⟩ := hsent hid hidL
        exact hdone' _ (List.mem_map_of_mem ha)
  have hstart : (peerStatic cfg sim queue).start st =
      if 1 < cfg.asynchLocalEvalConcurrency then localStart cfg L st₁
      else .ok { st := synchronousLocalEvaluations sim L st₁, localQueue := L, recvCntr := L.size } := by
    simp only [peerStatic, h.clearBuffers, roundRobin_eq]
    rfl
  by_cases hc1 : 1 < cfg.asynchLocalEvalConcurrency
  · rw [if_pos hc1] at hstart
    obtain ⟨ls₀, hls₀, h₀⟩ := localStart_spec Config.blockingLimit_zero (fun hj => (hL hj).1) hinv
      hpend hremote hmsg
    refine Scheduler.correct_of_sound _ _ (hstart.trans hls₀)
      (localLoop_sound Config.blockingLimit_zero fun hj => (hL hj).1) h₀
      (fun ls hi => hi.inv.valid) fun ls hi hd => ?_
    exact hfinish hi.inv.toInv hi.requests_eq hi.running (hi.of_done hd).1
  · rw [if_neg hc1] at hstart
    have hactive : st₁.asynchLocalActivePRPQueue = ∅ := by
      rw [hst₁, (sendPlan_same ..).active, Std.ExtTreeMap.eq_empty_iff_forall_not_mem]
      exact fun id hid => h.status_ne_running id 0 (h.inv.mem_active.mp hid)
    have hpos : 0 < cfg.blockingLimit 0 := by
      rw [Config.blockingLimit_zero, Config.localLimit, if_neg (by omega)]
      exact_mod_cast hc
    obtain ⟨hinv₂, hreq₂, hmsg₂, hdone₂, -⟩ := evaluateSynchLocal_all L.toList hinv hpos
      hactive (fun p hp => ⟨(hL (IntMap.mem_toList.mp hp)).1,
        hpend _ (mem_toList_fst.mp (List.mem_map_of_mem hp))⟩) IntMap.nodup_map_fst_toList
    refine Scheduler.correct_of_sound (· = _) (fun _ => 0) hstart
      ⟨fun ls rep he hd => ?_, fun ls he hd => ?_⟩ rfl (fun ls he => he ▸ hinv₂.valid)
      fun ls he _ => ?_
    · simp [peerStatic, localLoop, he] at hd
    · simp [peerStatic, localLoop, he] at hd
    · subst he
      refine hfinish hinv₂ hreq₂ (hmsg₂.trans hmsg) fun id hid => ?_
      obtain ⟨p, hp, rfl⟩ := List.mem_map.mp (mem_toList_fst.mpr hid)
      exact hdone₂ p hp

end Dakota.Sched
