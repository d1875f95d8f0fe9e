import Dakota.Sched.BlockingPeers
import Dakota.Sched.Tests

/-!
# Dynamic peer schedule, and all blocking schedulers

* `DynamicInv`, for `peer_dynamic_schedule_evaluations`: every pending job is still to come from
  the iterator, and as long as there are any, the first buffer is in use.
* `blockingScheduler_correct`: the scheduler that `synchronize` selects is correct.
-/

namespace Dakota.Sched

open Ledger

variable {J R : Type} {cfg : Config} {limit : Nat → ℕ∞} {sim : Nat × J → R} {base : IntMap R}
  {queue : IntMap J} {st st' : State J R} {ls : LoopState J R}

/-- The invariant of the second pass. -/
structure DynamicInv (cfg : Config) (limit : Nat → ℕ∞) (sim : Nat × J → R) (base : IntMap R)
    (queue : IntMap J) (ls : LoopState J R) : Prop where
  inv : LocalInv cfg limit sim base queue ls.st
  running : Running ls.st.msgPassRunningMap ls.st.recvRequests
  job : ∀ p ∈ ls.assignIter, queue[p.1]? = some p.2
  nodup : (ls.assignIter.map Prod.fst).Nodup
  pending : ∀ id ∈ queue, ls.st.status id = .pending → id ∈ ls.assignIter.map Prod.fst
  recvCntr : ls.recvCntr = (doneIds queue ls.st).card
  busy : (∃ id ∈ queue, ls.st.status id = .pending) → 0 ∈ ls.st.recvRequests

namespace DynamicInv

/-- While a job is not done, some job is active or in flight. -/
theorem progress (h : DynamicInv cfg limit sim base queue ls) (hlt : ls.recvCntr < queue.size) :
    ∃ id, id ∈ ls.st.asynchLocalActivePRPQueue ∨ ∃ b, ls.st.InBuffer b id := by
  obtain ⟨id, hid, hnd⟩ := exists_not_done (h.recvCntr ▸ hlt)
  cases hst : ls.st.status id with
  | done => exact absurd hst hnd
  | running s =>
    by_cases hs : s = 0
    · exact ⟨id, .inl (h.inv.mem_active.mpr (hs ▸ hst))⟩
    · obtain ⟨b, r, hb, he⟩ := h.inv.messages.request_of hst hs
      exact ⟨id, .inr ⟨b, r, hb, he⟩⟩
  | pending =>
    obtain ⟨r, hr⟩ := IntMap.mem_iff.mp (h.busy ⟨id, hid, hst⟩)
    exact ⟨r.evalId, .inr ⟨0, r, hr, rfl⟩⟩

/-- One iteration: both tests. -/
theorem body (hlim : limit 0 = cfg.localLimit) (hs : cfg.staticLimited = false) {rep : Report}
    (h : DynamicInv cfg limit sim base queue ls) (hv : (peerDynamic cfg sim queue).loop.valid ls rep) :
    ∃ ls' n, peerDynamicBody cfg sim queue rep ls = .ok ls' ∧
      DynamicInv cfg limit sim base queue ls' ∧
      ls'.recvCntr = ls.recvCntr + n + rep.finished.length ∧
      ∀ b ∈ rep.arrived, b ∈ ls.st.recvRequests → 0 < n := by
  obtain ⟨hnodup, hactive⟩ := hv
  obtain ⟨st₁, iter₁, n, hok₁, hinv₁, hrunning₁, hrun₁, hpos⟩ :=
    testReceivesBackfill_spec rep.arrived h.inv.toInv h.running h.job h.nodup
  have hlocal₁ : LocalInv cfg limit sim base queue st₁ := ⟨hinv₁, by simp [hs]⟩
  have hjob₁ : ∀ p ∈ iter₁, queue[p.1]? = some p.2 := fun p hp => h.job p (hrun₁.sublist.subset hp)
  obtain ⟨st₂, iter₂, hok₂, hinv₂, hrun₂, hiter₂⟩ := testLocalBackfill_spec hlim queue hlocal₁
    hrunning₁ hnodup (fun id hid => by rw [hrun₁.active]; exact hactive id hid) id hjob₁
  obtain ⟨hsub₂, hskip₂⟩ := hiter₂ hs
  refine ⟨{ ls with
      st := st₂, assignIter := iter₂, recvCntr := ls.recvCntr + n + rep.finished.length }, n, ?_,
    ⟨hinv₂, ?_, fun p hp => hjob₁ p (hsub₂.subset hp),
      h.nodup.sublist ((hsub₂.trans hrun₁.sublist).map _), fun id hid hp => ?_, ?_, ?_⟩, rfl, hpos⟩
  · simp only [peerDynamicBody, hok₁, hok₂, bind, Except.bind, pure, Except.pure]
  · rw [hrun₂.running, hrun₂.requests]
    exact hrunning₁
  · have hp₁ := hrun₂.pending_of hp
    obtain ⟨p, hp', rfl⟩ := List.mem_map.mp (h.pending id hid (hrun₁.pending_of hp₁))
    by_cases hm₁ : p ∈ iter₁
    · by_cases hm₂ : p ∈ iter₂
      · exact List.mem_map_of_mem hm₂
      · exact absurd hp (hskip₂ p hm₁ hm₂)
    · exact absurd hp₁ (hrun₁.skipped p hp' hm₁)
  · simp only [h.recvCntr, hrun₂.count, hrun₁.count]
  · rintro ⟨id, hid, hp⟩
    have hp₁ := hrun₂.pending_of hp
    rw [hrun₂.requests]
    exact hrun₁.busy h.pending ⟨id, hid, hp₁⟩ 0 (h.busy ⟨id, hid, hrun₁.pending_of hp₁⟩)

end DynamicInv

/-- `peer_dynamic_schedule_evaluations` -/
theorem peerDynamic_correct (hN : 2 ≤ cfg.numEvalServers)
    (hc : 1 ≤ cfg.asynchLocalEvalConcurrency) (hs : cfg.staticLimited = false)
    (h : Fresh cfg.blockingLimit sim base queue st) :
    (peerDynamic cfg sim queue).Correct cfg.blockingLimit st (Complete sim base queue) := by
  set numAssign := min (cfg.numEvalServers * cfg.serverCapacity) queue.size with hassign
  clear_value numAssign
  set prps := queue.toList.take numAssign with hprps
  set plan := robinPlan cfg prps 1 0 with hplan
  set L := robinLocal cfg prps 1 ∅ with hLdef
  have hcap : cfg.serverCapacity = cfg.asynchLocalEvalConcurrency := by
    rw [Config.serverCapacity]
    omega
  have hlen : queue.toList.length = queue.size := Std.ExtTreeMap.length_toList
  have hlenp : prps.length = numAssign := by
    rw [hprps, List.length_take]
    omega
  have hndq := IntMap.nodup_map_fst_toList (m := queue)
  have hnd : (prps.map Prod.fst).Nodup := hndq.sublist ((List.take_sublist ..).map _)
  have hjob {p : Nat × J} (hp : p ∈ prps) : queue[p.1]? = some p.2 :=
    IntMap.mem_toList.mp (List.mem_of_mem_take hp)
  -- The remote share fits in the buffers, and the local one in the concurrency.
  have hremote : plan.length = remoteCount cfg.numEvalServers numAssign := by
    have := length_robinPlan cfg prps 0 0
    simpa [remoteCount, hlenp] using this
  obtain ⟨-, hle₂⟩ := remoteCount_le cfg.serverCapacity cfg.numEvalServers_pos
    (k := numAssign) (by omega)
  have hLsize : L.size ≤ cfg.asynchLocalEvalConcurrency := by
    have := size_robinLocal cfg hnd 1 0 (L := ∅) (by simp)
    rw [← hplan, ← hLdef, Std.ExtTreeMap.size_empty] at this
    omega
  have hsend : Sendable (turn (cfg.numEvalServers - 1))
      ((cfg.numEvalServers - 1) * cfg.serverCapacity) queue st plan :=
    sendable_robinPlan hN (List.take_sublist ..) h.pending h.requests
      (length_robinPlan_le (by omega))
  obtain ⟨hinv, -, hreq, -, hsame, hrun⟩ := sendPlan_spec true h.inv h.layout
    (fun s hs => le_trans (by exact_mod_cast card_slots_mod s)
      (Config.serverCapacity_le_blockingLimit s hs)) hsend
  have hrunning : Running (sendPlan true plan st).msgPassRunningMap
      (sendPlan true plan st).recvRequests := by
    refine Running.sendPlan st ?_ hsend.ids hsend.buffers (fun a _ => by simp [h.running]) hsend.free
    rw [h.running, h.requests]
    exact .empty
  set st₁ := sendPlan true plan st with hst₁
  have hL {id : Nat} {job : J} (hj : L[id]? = some job) :
      (id, job) ∈ prps ∧ id ∉ planIds plan := by
    rcases robinLocal_sound hnd (b := 0) hj with h0 | hm
    · simp at h0
    · exact hm
  have hactive : st₁.asynchLocalActivePRPQueue = ∅ := by
    rw [hst₁, (sendPlan_same ..).active, Std.ExtTreeMap.eq_empty_iff_forall_not_mem]
    exact fun id hid => h.status_ne_running id 0 (h.inv.mem_active.mp hid)
  have hlocal₁ : LocalInv cfg cfg.blockingLimit sim base queue st₁ := ⟨hinv, by simp [hs]⟩
  obtain ⟨hinv₂, hrun₂, hall₂, -⟩ := hlocal₁.launchAll Config.blockingLimit_zero hs L.toList
    (fun p hp => by
      obtain ⟨hm, hn⟩ := hL (IntMap.mem_toList.mp hp)
      exact ⟨hjob hm, (hsame p.1 hn).trans (h.pending _ (IntMap.mem_of_get? (hjob hm)))⟩)
    IntMap.nodup_map_fst_toList (fun _ => by
      rw [hactive, Std.ExtTreeMap.size_empty, Std.ExtTreeMap.length_toList]
      omega)
  set st₂ := L.toList.foldl cfg.launch st₁ with hst₂
  have hstart : (peerDynamic cfg sim queue).start st =
      .ok { st := st₂, assignIter := queue.toList.drop numAssign } := by
    simp only [peerDynamic, h.clearBuffers, roundRobin_eq, ← hassign, ← hprps, ← hplan, ← hst₁,
      ← hLdef, assignAsynchLocalQueue, hactive, Std.ExtTreeMap.isEmpty_empty, Bool.not_true,
      Bool.false_eq_true, if_false, hs, assignLoop_dynamic hs, bind, Except.bind, pure, Except.pure]
    rw [if_pos (by omega), List.take_of_length_le (by rw [Std.ExtTreeMap.length_toList]; omega)]
  -- Each job of the first pass has started.
  have hstarted {p : Nat × J} (hp : p ∈ prps) : ∃ s, st₂.status p.1 = .running s := by
    by_cases hm : p.1 ∈ planIds plan
    · obtain ⟨a, ha, he⟩ := List.mem_map.mp hm
      have hserver := (hsend.server a ha).2.2
      exact ⟨a.server, (hrun₂.running_of_ne hserver).mpr (he ▸ hrun a ha)⟩
    · exact ⟨0, hall₂ p (IntMap.mem_toList.mpr (robinLocal_complete hnd hp hm))⟩
  have hpend₂ {id : Nat} (hid : id ∈ queue) (hp : st₂.status id = .pending) :
      id ∈ (queue.toList.drop numAssign).map Prod.fst := by
    obtain ⟨p, hm, rfl⟩ := List.mem_map.mp (mem_toList_fst.mpr hid)
    rw [← List.take_append_drop numAssign queue.toList, List.mem_append] at hm
    rcases hm with hm | hm
    · obtain ⟨s, hr⟩ := hstarted hm
      cases hr.symm.trans hp
    · exact List.mem_map_of_mem hm
  refine Scheduler.correct_of_sound (DynamicInv cfg cfg.blockingLimit sim base queue)
    (fun ls => queue.size - ls.recvCntr) hstart ⟨fun ls rep hi hd hv => ?_, fun ls hi hd => ?_⟩
    ⟨hinv₂, ?_, fun p hp => IntMap.mem_toList.mp (List.mem_of_mem_drop hp),
      hndq.sublist ((List.drop_sublist ..).map _), fun id hid hp => hpend₂ hid hp, ?_, ?_⟩
    (fun ls hi => hi.inv.valid) fun ls hi hd => ?_
  · obtain ⟨ls', n, hok, hi', hcntr, hpos⟩ := hi.body Config.blockingLimit_zero hs hv
    simp only [peerDynamic, decide_eq_false_iff_not] at hd
    refine ⟨ls', hok, hi', by omega, ?_⟩
    rintro ⟨id, hid | ⟨b, hb, r, hr, -⟩⟩
    · have := List.length_pos_of_mem hid
      omega
    · have := hpos b hb (IntMap.mem_of_get? hr)
      omega
  · simp only [peerDynamic, decide_eq_false_iff_not] at hd
    exact hi.progress (by omega)
  · simp only [hrun₂.running, hrun₂.requests]
    exact hrunning
  · rw [eq_comm, Finset.card_eq_zero, Finset.eq_empty_iff_forall_notMem]
    intro id hid
    obtain ⟨hq, hd⟩ := mem_doneIds.mp hid
    have hd₁ := hrun₂.done_iff.mp hd
    by_cases hm : id ∈ planIds plan
    · obtain ⟨a, ha, rfl⟩ := List.mem_map.mp hm
      cases hd₁.symm.trans (hrun a ha)
    · cases (h.pending id hq).symm.trans ((hsame id hm).symm.trans hd₁)
  · -- Jobs are left over only if all buffers are in use.
    rintro ⟨id, hid, hp⟩
    have hdrop := List.length_pos_of_mem (hpend₂ hid hp)
    rw [List.length_map, List.length_drop] at hdrop
    have hpos : 0 < plan.length := by
      have hlt : numAssign < queue.size := by omega
      have hmin : numAssign = cfg.numEvalServers * cfg.serverCapacity :=
        hassign.trans (Nat.min_eq_left (by
          by_contra hgt
          rw [Nat.min_eq_right (by omega)] at hassign
          omega))
      have hmul := Nat.mul_le_mul hN (hcap ▸ hc)
      rw [hremote, remoteCount]
      exact Nat.sub_pos_of_lt (Nat.div_lt_self (by omega) hN)
    have hmem : 0 ∈ planBuffers plan := by
      rw [planBuffers_robinPlan, ← hplan, List.mem_range'_1]
      omega
    obtain ⟨a, ha, hb⟩ := List.mem_map.mp hmem
    simp only [hrun₂.requests]
    exact IntMap.mem_of_get? (hb ▸ hreq a ha)
  · simp only [peerDynamic, decide_eq_true_eq] at hd
    have hdone (id : Nat) (hid : id ∈ queue) : ls.st.status id = .done :=
      done_of_card (by rw [← hi.recvCntr]; exact hd) hid
    refine ⟨ls.st.clearBuffers, rfl, hi.inv.valid, (hi.inv.complete hdone ?_).clearBuffers⟩
    rw [Std.ExtTreeMap.eq_empty_iff_forall_not_mem]
    intro id hid
    obtain ⟨s, -, hr⟩ := hi.inv.status_of_mem_running hi.running hid
    cases hr.symm.trans (hdone id (hi.inv.mem_queue hr))

/-- **Blocking synchronization.** Whatever the environment reports, no scheduler fails, launches a
job twice, or takes a server whose concurrency it controls above its limit. With a fair environment
it returns, and then each job of the queue was launched exactly once and has its own result. -/
theorem blockingScheduler_correct (cfg : Config) (sim : Nat × J → R) (base : IntMap R)
    (queue : IntMap J)
    (hcfg : cfg.ieMessagePass = true → 2 ≤ cfg.numEvalServers ∧ 1 ≤ cfg.asynchLocalEvalConcurrency)
    (hbase : ∀ id ∈ queue, id ∉ base) :
    (blockingScheduler cfg sim queue).Correct cfg.blockingLimit { rawResponseMap := base }
      (Complete sim base queue) := by
  have hfresh : Fresh cfg.blockingLimit sim base queue { rawResponseMap := base } := .init hbase
  rw [blockingScheduler]
  split
  · rename_i hmsg
    obtain ⟨hN, hc⟩ := hcfg hmsg
    split
    · exact masterDynamic_correct hfresh
    · rename_i hmaster
      split
      · rename_i hpeer
        refine peerStatic_correct hN hc (fun s hs => ?_) hfresh
        simp [Config.blockingLimit, hs, hmsg, hmaster, hpeer]
      · rename_i hpeer
        refine peerDynamic_correct hN hc ?_ hfresh
        simp only [Config.peerStatic, Bool.or_eq_true, not_or, Bool.not_eq_true] at hpeer
        simp [Config.staticLimited, hpeer.1.1.1]
  · exact asynchronousLocal_correct hfresh

/-- Three jobs on three peers with two jobs at a time each, and a result from before. -/
theorem blockingScheduler_correct_three_peers :
    let cfg : Config :=
      { numEvalServers := 3, asynchLocalEvalConcurrency := 2, ieMessagePass := true }
    let queue : IntMap Nat := ((∅ : IntMap Nat).insert 4 40 |>.insert 5 50).insert 6 60
    let base : IntMap Nat := (∅ : IntMap Nat).insert 3 31
    (blockingScheduler cfg (fun p => p.2 + 1) queue).Correct cfg.blockingLimit
      { rawResponseMap := base } (Complete (fun p => p.2 + 1) base queue) :=
  blockingScheduler_correct _ _ _ _ (by decide) fun id hid => by
    simp only [IntMap.mem_iff, IntMap.get?_insert, IntMap.get?_empty] at hid
    rw [IntMap.notMem_iff, IntMap.get?_insert, if_neg, IntMap.get?_empty]
    rintro rfl
    simp at hid

end Dakota.Sched
