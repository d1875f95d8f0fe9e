import Dakota.Interface.NonblockingSchedulers

/-!
# Polling

Repeated calls of `synchronize_nowait` on an interface that evaluates locally. A call launches what
it can before it tests, so that a call whose tests find all jobs complete returns at least one
evaluation. As many calls as there are jobs in the queue return them all (`polls_return_all`).
-/

namespace Dakota

open Sched Ledger Outcome

variable {J R : Type}

section Scheduler

variable {cfg : Config} {limit : Nat → ℕ∞} {sim : Nat × J → R} {queue L : IntMap J}
  {st st' : State J R} {rep : Report} {id : Nat}

/-- A launch keeps the active jobs. -/
theorem mem_active_assignNowaitLoop {prps : List (Nat × J)} {numActive : Nat}
    (h : id ∈ st.asynchLocalActivePRPQueue) :
    id ∈ (assignNowaitLoop cfg prps numActive st).1.asynchLocalActivePRPQueue := by
  induction prps generalizing numActive st with
  | nil => exact h
  | cons prp prps ih =>
    rw [assignNowaitLoop]
    split
    · exact h
    · split
      · exact ih h
      · split
        · exact ih h
        · refine ih (IntMap.mem_insert.mpr (.inr ?_))
          split <;> exact h

/-- With nothing active, the first job is launched. -/
theorem active_assignAsynchLocalQueueNowait (hempty : st.asynchLocalActivePRPQueue = ∅)
    (hslots : cfg.staticLimited = true → Slots cfg st.localServerAssigned st.log)
    (hidle : ∀ id, st.status id ≠ .running 0) (hL : L.size ≠ 0) :
    (assignAsynchLocalQueueNowait cfg L st).1.asynchLocalActivePRPQueue ≠ ∅ := by
  rw [assignAsynchLocalQueueNowait]
  set st₁ := if cfg.staticLimited && st.localServerSize ≠ cfg.staticServers then
    st.resetServers cfg else st with hst₁
  have hactive : st₁.asynchLocalActivePRPQueue = ∅ := by
    rw [hst₁]
    split <;> exact hempty
  -- No "server" is assigned without an active job.
  have hassigned : cfg.staticLimited = true → st₁.localServerAssigned = ∅ := by
    intro hs
    rw [hst₁]
    split
    · rfl
    · rw [Finset.eq_empty_iff_forall_notMem]
      intro k hk
      obtain ⟨i, hi, -⟩ := (hslots hs).mem.mp hk
      exact hidle i hi
  obtain ⟨prp, rest, hlist⟩ : ∃ prp rest, L.toList = prp :: rest := by
    cases hl : L.toList with
    | nil =>
      rw [← Std.ExtTreeMap.length_toList, hl] at hL
      exact absurd rfl hL
    | cons prp rest => exact ⟨prp, rest, rfl⟩
  rw [hlist, assignNowaitLoop, if_neg, if_neg, if_neg]
  · intro hnone
    have hmem : prp.1 ∈ (assignNowaitLoop cfg rest (st₁.asynchLocalActivePRPQueue.size + 1)
        ((if cfg.staticLimited then st₁.assignServer cfg prp.1 else st₁).launchAsynchLocal
          prp)).1.asynchLocalActivePRPQueue :=
      mem_active_assignNowaitLoop (IntMap.mem_insert.mpr (.inl rfl))
    rw [hnone] at hmem
    exact Std.ExtTreeMap.not_mem_empty hmem
  · rw [Bool.and_eq_true, decide_eq_true_eq, not_and]
    intro hs hm
    rw [hassigned hs] at hm
    exact Finset.notMem_empty _ hm
  · rw [hactive]
    exact Std.ExtTreeMap.not_mem_empty
  · rw [hactive, Std.ExtTreeMap.size_empty]
    omega

variable (cfg queue st) in
/-- A local call launches from its queue, or has launched enough before. -/
theorem localLaunch_eq : localLaunch cfg queue st = assignAsynchLocalQueueNowait cfg queue st ∨
    localLaunch cfg queue st = (st, queue.toList) := by
  simp only [localLaunch]
  generalize (if cfg.asynchLocalEvalConcurrency ≠ 0 then
    min cfg.asynchLocalEvalConcurrency queue.size else queue.size) = numTarget
  split
  exacts [.inl rfl, .inr rfl]

theorem active_localLaunch (h : CallInv cfg limit sim queue st) (hqueue : queue.size ≠ 0) :
    (localLaunch cfg queue st).1.asynchLocalActivePRPQueue ≠ ∅ := by
  by_cases hempty : st.asynchLocalActivePRPQueue = ∅
  · rw [localLaunch, if_pos]
    · exact active_assignAsynchLocalQueueNowait hempty h.slots
        (h.toNowaitInv.active_eq_empty.mp hempty) hqueue
    · rw [hempty, Std.ExtTreeMap.size_empty]
      split <;> omega
  · obtain ⟨i, hi⟩ : ∃ i, i ∈ st.asynchLocalActivePRPQueue := by
      by_contra hnone
      exact hempty (Std.ExtTreeMap.eq_empty_iff_forall_not_mem.mpr fun i hi => hnone ⟨i, hi⟩)
    have hmem : i ∈ (localLaunch cfg queue st).1.asynchLocalActivePRPQueue := by
      rcases localLaunch_eq cfg queue st with heq | heq <;> rw [heq]
      · rw [assignAsynchLocalQueueNowait]
        refine mem_active_assignNowaitLoop ?_
        split <;> exact hi
      · exact hi
    intro hnone
    rw [hnone] at hmem
    exact Std.ExtTreeMap.not_mem_empty hmem

/-- The state after the launches of a local call. -/
theorem localLaunch_spec (hlim : limit 0 = cfg.localLimit) (h : CallInv cfg limit sim queue st)
    (hm : st.msgPassRunningMap = ∅) :
    NowaitInv cfg limit sim queue (localLaunch cfg queue st).1 ∧
      (∀ p ∈ (localLaunch cfg queue st).2, queue[p.1]? = some p.2) ∧
      ∀ i ∈ queue, (localLaunch cfg queue st).1.status i ≠ .done := by
  have hjobs : ∀ p ∈ queue.toList, queue[p.1]? = some p.2 ∧
      (st.status p.1 = .pending ∨ st.status p.1 = .running 0) := by
    intro p hp
    have hq := IntMap.mem_toList.mp hp
    refine ⟨hq, ?_⟩
    cases hs : st.status p.1 with
    | pending => exact .inl rfl
    | running s =>
      by_cases h0 : s = 0
      · exact .inr (by rw [h0])
      · have hin := h.mem_running_of_status h.running h0 hs
        rw [hm] at hin
        exact absurd hin Std.ExtTreeMap.not_mem_empty
    | done => exact absurd hs (h.notDone _ (IntMap.mem_of_get? hq))
  rcases localLaunch_eq cfg queue st with hlaunch | hlaunch <;>
    rw [hlaunch]
  · obtain ⟨st₁, iter, heq, hinv, hrun, hsub⟩ :=
      h.toNowaitInv.assignAsynchLocalQueueNowait hlim (L := queue) hjobs
    rw [heq]
    refine ⟨hinv, fun p hp => (hjobs p (hsub.subset hp)).1, fun i hi hdone => ?_⟩
    rcases hrun.status i with hs | ⟨-, hr, -⟩
    · exact h.notDone i hi (hs.symm.trans hdone)
    · cases hdone.symm.trans hr
  · exact ⟨h.toNowaitInv, fun p hp => (hjobs p hp).1, h.notDone⟩

/-- A call that finds all jobs complete completes one. -/
theorem asynchronousLocalNowait_progress (hlim : limit 0 = cfg.localLimit)
    (h : CallInv cfg limit sim queue st) (hm : st.msgPassRunningMap = ∅) (hqueue : queue.size ≠ 0)
    (hrep : ∀ i ∈ queue, i ∈ rep.finished)
    (hok : asynchronousLocalNowait cfg sim queue rep st = .ok st') :
    ∃ i ∈ queue, st'.status i = .done := by
  obtain ⟨hinv, hjob, hnot⟩ := localLaunch_spec hlim h hm
  have hactive := active_localLaunch h hqueue
  rw [asynchronousLocalNowait] at hok
  generalize localLaunch cfg queue st = launch at hok hinv hjob hnot hactive
  obtain ⟨st₁, iter₁⟩ := launch
  replace hok : (testLocalBackfill cfg sim queue (testLocalEvaluations rep.finished st₁) st₁
      iter₁ >>= fun r => pure r.1) = .ok st' := hok
  set finished := testLocalEvaluations rep.finished st₁ with hfinished
  have hmem {i : Nat} : i ∈ finished ↔ i ∈ st₁.asynchLocalActivePRPQueue := by
    rw [hfinished, testLocalEvaluations, List.mem_filter, mem_toList_fst, decide_eq_true_eq]
    refine and_iff_left_of_imp fun hi => hrep i ?_
    obtain ⟨job, hj⟩ := IntMap.mem_iff.mp hi
    exact IntMap.mem_of_get? (hinv.locals.active hj).1
  have hnodup : finished.Nodup := IntMap.nodup_map_fst_toList.sublist List.filter_sublist
  have hlaunched : ∀ i ∈ finished, i ∈ st₁.asynchLocalActivePRPQueue := fun i => hmem.mp
  obtain ⟨st₂, iter, htest, -, hrun, -⟩ :=
    testLocalBackfill_spec hlim queue hinv.toLocalInv hinv.running hnodup hlaunched id hjob
  have hsome : finished ≠ [] := by
    intro hnil
    refine hactive (Std.ExtTreeMap.eq_empty_iff_forall_not_mem.mpr fun i hi => ?_)
    have := hmem.mpr hi
    rw [hnil] at this
    exact List.not_mem_nil this
  rw [show testLocalBackfill cfg sim queue finished st₁ iter₁ = _ from htest, ok_bind] at hok
  cases hok
  have hcount := hrun.count
  have hpos : 0 < (doneIds queue st₂).card := by
    have := List.length_pos_iff.mpr hsome
    omega
  obtain ⟨i, hi⟩ := Finset.card_pos.mp hpos
  exact ⟨i, (mem_doneIds.mp hi).1, (mem_doneIds.mp hi).2⟩

end Scheduler

variable {setup : InterfaceSetup J R} {answers : Answers setup} {run : Run J R}
  {dataPairs : List (CacheRecord J R)} {calls : List (InterfaceCall J R)}

/-- The scheduler's state in a call with a queue. -/
theorem Interface.schedule_eq_ok {iface iface' : Interface J R} {rep : Report}
    (h : iface.schedule setup rep = .ok iface') (hsize : iface.beforeSynchCorePRPQueue.size ≠ 0) :
    nowaitScheduler setup.cfg setup.sim iface.beforeSynchCorePRPQueue rep iface.idle =
      .ok iface'.sched := by
  rw [Interface.schedule, if_neg (by simpa [Std.ExtTreeMap.isEmpty_eq_size_beq_zero] using hsize)]
    at h
  show nowaitScheduler setup.cfg setup.sim iface.beforeSynchCorePRPQueue rep
    { iface.sched with rawResponseMap := ∅ } = _
  split at h
  · cases h
  · rename_i hok
    cases h
    exact hok

/-- One poll that finds all jobs complete. -/
structure Polled (run run' : Run J R) : Prop where
  issued : run'.issued = run.issued
  cntr : run'.iface.evalIdCntr = run.iface.evalIdCntr
  queue : ∀ id ∈ run'.iface.beforeSynchCorePRPQueue, id ∈ run.iface.beforeSynchCorePRPQueue
  smaller : run.iface.beforeSynchCorePRPQueue.size ≠ 0 →
    run'.iface.beforeSynchCorePRPQueue.size < run.iface.beforeSynchCorePRPQueue.size
  history : run'.iface.historyDuplicateMap = ∅
  cached : run'.iface.cachedResponseMap = ∅

theorem RunInv.poll {hlocal : setup.cfg.ieMessagePass = false}
    (h : RunInv (localContract hlocal) answers run) {rep : Report}
    (hrep : ∀ id ∈ run.iface.beforeSynchCorePRPQueue, id ∈ rep.finished) :
    Meets (fun _ => False) (fun run' => RunInv (localContract hlocal) answers run' ∧
      Polled run run') (run.step setup (.synchronizeNowait rep)) := by
  have hstep : Meets (fun _ => False) (RunInv (localContract hlocal) answers)
      (run.step setup (.synchronizeNowait rep)) :=
    (h.synchronizeNowait trivial).imp (fun _ hf => hf.choose_spec.1) fun _ => id
  cases hok : run.step setup (.synchronizeNowait rep) with
  | error e =>
    rw [hok] at hstep
    exact hstep
  | ok run' =>
    rw [hok] at hstep
    refine ⟨hstep, ?_⟩
    obtain ⟨sched, pairs, raw, dups, hs, hd, hsched, rfl⟩ := h.of_synchronizeNowait trivial hok
    refine ⟨rfl, rfl, fun id hid => (mem_eraseRange.mp hid).1, fun hsize => ?_, rfl, rfl⟩
    -- A job that the call completes leaves the queue.
    have hnowait := Interface.schedule_eq_ok hsched hsize
    rw [nowaitScheduler, hlocal, if_neg (by simp)] at hnowait
    obtain ⟨id, hid, hdone⟩ :=
      asynchronousLocalNowait_progress rfl h.sched h.keeps hsize hrep hnowait
    rw [← IntMap.card_ids, ← IntMap.card_ids]
    refine Finset.card_lt_card (Finset.ssubset_iff_subset_ne.mpr ⟨fun i hi => ?_, fun heq => ?_⟩)
    · exact IntMap.mem_ids.mpr (mem_eraseRange.mp (IntMap.mem_ids.mp hi)).1
    · have hin := IntMap.mem_ids.mp (heq ▸ IntMap.mem_ids.mpr hid)
      exact (mem_eraseRange.mp hin).2 ((h.mem_returned_of_queue hs hd hid).mpr hdone)

end Dakota
