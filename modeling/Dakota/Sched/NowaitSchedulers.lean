import Dakota.Sched.FillGaps

/-!
# One call of a nonblocking scheduler

What a call keeps, for each scheduler. The jobs of the queue are running or new when it starts.

* `masterDynamicNowait_spec`, `peerDynamicNowait_spec`: each buffer stays in the block of its
  server, and no search for a buffer fails, with at most 65535 buffers for each server or 65535
  jobs.
* `peerStaticNowait_spec`: each job has a buffer of its own, if the gaps that the call fills are
  not `Unclashed`.
* `asynchronousLocalNowait_spec`.
-/

namespace Dakota.Sched

open Ledger Outcome

variable {J R : Type} {cfg : Config} {limit : Nat → ℕ∞} {sim : Nat × J → R} {queue L : IntMap J}
  {st st' : State J R} {rep : Report}

/-- The jobs before a call. -/
structure CallInv (cfg : Config) (limit : Nat → ℕ∞) (sim : Nat × J → R) (queue : IntMap J)
    (st : State J R) : Prop extends NowaitInv cfg limit sim queue st where
  notDone : ∀ id ∈ queue, st.status id ≠ .done

namespace CallInv

variable (h : CallInv cfg limit sim queue st)
include h

theorem requests_of_running (hm : st.msgPassRunningMap = ∅) : st.recvRequests = ∅ := by
  have hrel := h.releaseBuffers_eq
  rw [State.releaseBuffers, if_pos (by rw [hm]; rfl)] at hrel
  rw [← hrel]
  rfl

/-- With nothing running, all jobs are pending. -/
theorem pending (hm : st.msgPassRunningMap = ∅) (ha : st.asynchLocalActivePRPQueue = ∅) {id : Nat}
    (hq : id ∈ queue) : st.status id = .pending := by
  cases hst : st.status id with
  | pending => rfl
  | running s =>
    by_cases hs : s = 0
    · have := h.mem_active.mpr (hs ▸ hst)
      simp [ha] at this
    · have := h.mem_running_of_status h.running hs hst
      simp [hm] at this
  | done => exact absurd hst (h.notDone id hq)

end CallInv

/-! ## First passes -/

theorem length_queue_toList : queue.toList.length = queue.size := Std.ExtTreeMap.length_toList

/-- The first pass over `M` servers from a part of the queue. -/
theorem CallInv.stratifiedFirst {M : Nat} (h : CallInv cfg limit sim queue st)
    (hc : 1 ≤ cfg.asynchLocalEvalConcurrency)
    (hlimit : ∀ s ≠ 0, limit s = cfg.asynchLocalEvalConcurrency)
    (hm : st.msgPassRunningMap = ∅) (ha : st.asynchLocalActivePRPQueue = ∅)
    {prps : List (Nat × J)} (hsub : prps.Sublist queue.toList)
    (hlen : prps.length ≤ M * cfg.asynchLocalEvalConcurrency) :
    let st' := sendEach true (stratifiedPlace cfg M) prps 0 st
    NowaitInv cfg limit sim queue st' ∧ Stratified cfg M st' ∧
      st'.asynchLocalActivePRPQueue = ∅ ∧
      ∀ id ∉ prps.map Prod.fst, st'.status id = st.status id := by
  intro st'
  have hst' : st' = sendPlan true (eachPlan (stratifiedPlace cfg M) prps 0) st := sendEach_eq ..
  set plan := eachPlan (stratifiedPlace cfg M) prps 0
  have hnd : (prps.map Prod.fst).Nodup := IntMap.nodup_map_fst_toList.sublist (hsub.map _)
  have hM (hpos : 0 < prps.length) : 0 < M := by
    refine Nat.pos_of_ne_zero fun hM => ?_
    rw [hM, Nat.zero_mul] at hlen
    omega
  -- Job `j` has place `j / M` in the block of server `j % M`.
  have hplace {j : Nat} (hj : j < prps.length) :
      (stratifiedPlace cfg M j).2 / cfg.asynchLocalEvalConcurrency = j % M ∧
      (stratifiedPlace cfg M j).2 % cfg.asynchLocalEvalConcurrency = j / M := by
    have hlt : j / M < cfg.asynchLocalEvalConcurrency :=
      Nat.div_lt_of_lt_mul (hj.trans_le hlen)
    simp only [stratifiedPlace]
    rw [Nat.mul_comm, Nat.mul_add_div (by omega), Nat.mul_add_mod, Nat.div_eq_of_lt hlt,
      Nat.mod_eq_of_lt hlt]
    exact ⟨rfl, rfl⟩
  have hreq := h.requests_of_running hm
  have hsend : Sendable (· / cfg.asynchLocalEvalConcurrency + 1)
      (M * cfg.asynchLocalEvalConcurrency) queue st plan := by
    refine ⟨by rwa [planIds_eachPlan], ?_, fun a hmem => ?_, fun a _ => by rw [hreq]; simp,
      fun a hmem => ?_⟩
    · rw [planBuffers_eachPlan]
      refine List.Nodup.map_on (fun j hj j' hj' he => ?_) List.nodup_range'
      rw [List.mem_range'_1] at hj hj'
      obtain ⟨h₁, h₂⟩ := hplace (j := j) (by omega)
      obtain ⟨h₃, h₄⟩ := hplace (j := j') (by omega)
      rw [he] at h₁ h₂
      rw [← Nat.div_add_mod j M, ← Nat.div_add_mod j' M, ← h₂, h₄, ← h₁, h₃]
    · have hq := IntMap.mem_toList.mp (hsub.subset (mem_eachPlan hmem).1)
      exact ⟨hq, h.pending hm ha (IntMap.mem_of_get? hq)⟩
    · obtain ⟨-, j, -, hj, hserver, hbuff⟩ := mem_eachPlan hmem
      have hj' : j < prps.length := by omega
      obtain ⟨hd, -⟩ := hplace hj'
      have hMpos := hM (by omega)
      refine ⟨?_, by rw [hserver, hbuff, hd]; rfl, by rw [hserver]; exact Nat.succ_ne_zero _⟩
      rw [hbuff, ← Nat.div_lt_iff_lt_mul (by omega), hd]
      exact Nat.mod_lt _ hMpos
  obtain ⟨hinv, hlay, hsame⟩ := h.toNowaitInv.sendPlan hreq
    (fun s hs => by rw [hlimit s hs]; exact_mod_cast card_slots_div (by omega) s) hsend
  refine ⟨hst' ▸ hinv, hst' ▸ hlay, ?_, fun id hid => ?_⟩
  · rw [hst', (sendPlan_same ..).active, ha]
  · rw [hst']
    exact hsame id (by rwa [planIds_eachPlan])

/-! ## Master -/

theorem Config.serverCapacity_eq (hc : 1 ≤ cfg.asynchLocalEvalConcurrency) :
    cfg.serverCapacity = cfg.asynchLocalEvalConcurrency := by
  rw [Config.serverCapacity]
  omega

/-- A test of the messages keeps the servers of the buffers. -/
theorem Layout.of_receives {serverOf : Nat → Nat} {n k : Nat} {iter iter' : PRPQueueIter J}
    (h : Layout serverOf n st.recvRequests) (hrun : ReceivesRun queue st iter st' iter' k) :
    Layout serverOf n st'.recvRequests := by
  intro b r' hb
  obtain ⟨r, hr, he⟩ := hrun.buffer hb
  exact he ▸ h b r hr

/-- `master_dynamic_schedule_evaluations_nowait` -/
theorem masterDynamicNowait_spec (h : CallInv cfg limit sim queue st)
    (hc : 1 ≤ cfg.asynchLocalEvalConcurrency)
    (hlimit : ∀ s ≠ 0, limit s = cfg.asynchLocalEvalConcurrency)
    (hbound : cfg.asynchLocalEvalConcurrency ≤ 65535 ∨ queue.size ≤ 65535)
    (hlay : Stratified cfg cfg.numEvalServers st) (ha : st.asynchLocalActivePRPQueue = ∅) :
    Meets (fun _ => False) (fun st' => NowaitInv cfg limit sim queue st' ∧
        Stratified cfg cfg.numEvalServers st' ∧ st'.asynchLocalActivePRPQueue = ∅)
      (masterDynamicNowait cfg sim queue rep st) := by
  have hcap := Config.serverCapacity_eq hc
  have hlaunch : Meets (fun _ => False) (fun r => NowaitInv cfg limit sim queue r.1 ∧
      Stratified cfg cfg.numEvalServers r.1 ∧ r.1.asynchLocalActivePRPQueue = ∅ ∧
      r.2.Sublist queue.toList) (masterLaunch cfg queue st) := by
    rw [masterLaunch]
    split
    · rename_i hm
      obtain ⟨h₁, h₂, h₃, -⟩ := h.stratifiedFirst (M := cfg.numEvalServers) hc hlimit
        (IntMap.eq_empty_of_size hm) ha (List.take_sublist
          (min (cfg.numEvalServers * cfg.serverCapacity) queue.size) _) (by
            rw [List.length_take, hcap]
            omega)
      exact ⟨h₁, h₂, h₃, List.drop_sublist ..⟩
    · split
      · refine Meets.bind (fillGaps_spec (P := fun _ st => Stratified cfg cfg.numEvalServers st ∧
            st.asynchLocalActivePRPQueue = ∅) (fun _ _ _ hP => hP)
          (fun prp rest g hg hP hroom hq hp _ => ?_) queue.toList
          (GapInv.start h.toNowaitInv h.notDone) ⟨hlay, ha⟩
          (fun p hp => IntMap.mem_toList.mp hp) IntMap.nodup_map_fst_toList)
          fun r hr => ⟨hr.1.inv, hr.2.1.1, hr.2.1.2, hr.2.2⟩
        rw [decide_eq_true_eq, hcap] at hroom
        exact (hg.sendStratified hP.1 hlimit hbound hroom hq hp).imp (fun _ => id)
          fun g' hg' => ⟨hg'.1, hg'.2.1, hg'.2.2.trans hP.2⟩
      · exact ⟨h.toNowaitInv, hlay, ha, .refl _⟩
  refine hlaunch.bind fun ⟨st₁, iter⟩ ⟨hinv₁, hlay₁, ha₁, hsub⟩ => ?_
  obtain ⟨st', iter', n, hok, hinv', hrun⟩ := hinv₁.testReceives rep.arrived
    (fun p hp => IntMap.mem_toList.mp (hsub.subset hp))
    (IntMap.nodup_map_fst_toList.sublist (hsub.map _))
  simp only [hok, bind, Except.bind, meets_pure, hinv'.releaseBuffers_eq]
  exact ⟨hinv', hlay₁.of_receives hrun, hrun.active.trans ha₁⟩

/-! ## Peers -/

/-- A peer's call. `Q` is what the passes and the tests keep besides `NowaitInv`. -/
theorem peerNowait_spec {fails : Stop → Prop} {Q : State J R → Prop}
    {first gaps : State J R → Except Stop (State J R × PRPQueueIter J × Nat × Nat)}
    {testLocal : Bool} (hlim : limit 0 = cfg.localLimit) (h : CallInv cfg limit sim queue st)
    (hQ : Q st)
    (hreceives : ∀ (st st' : State J R) (iter iter' : PRPQueueIter J) (n : Nat),
      ReceivesRun queue st iter st' iter' n → Q st → Q st')
    (hlocal : testLocal = true → ∀ st st' : State J R, st'.recvRequests = st.recvRequests →
      Q st → Q st')
    (hfirst : st.msgPassRunningMap = ∅ → st.asynchLocalActivePRPQueue = ∅ → Meets fails
      (fun r => NowaitInv cfg limit sim queue r.1 ∧ Q r.1 ∧ r.2.1.Sublist queue.toList) (first st))
    (hgaps : st.msgPassRunningMap.size + st.asynchLocalActivePRPQueue.size ≠ 0 →
      queue.size ≠ st.msgPassRunningMap.size + st.asynchLocalActivePRPQueue.size →
      st.msgPassRunningMap.size + st.asynchLocalActivePRPQueue.size <
        cfg.numEvalServers * cfg.serverCapacity → Meets fails
      (fun r => NowaitInv cfg limit sim queue r.1 ∧ Q r.1 ∧ r.2.1.Sublist queue.toList) (gaps st)) :
    Meets fails (fun st' => NowaitInv cfg limit sim queue st' ∧ Q st')
      (peerNowait cfg sim first gaps testLocal queue rep st) := by
  have hjob {iter : PRPQueueIter J} (hsub : iter.Sublist queue.toList) :
      ∀ p ∈ iter, queue[p.1]? = some p.2 := fun p hp => IntMap.mem_toList.mp (hsub.subset hp)
  have hlaunch : Meets fails (fun r => NowaitInv cfg limit sim queue r.1 ∧ Q r.1 ∧
      r.2.1.Sublist queue.toList) (peerLaunch cfg first gaps queue st) := by
    rw [peerLaunch]
    split
    · rename_i hnone
      exact hfirst (IntMap.eq_empty_of_size (by omega)) (IntMap.eq_empty_of_size (by omega))
    · rename_i hsome
      split
      · rename_i hfill
        exact hgaps hsome hfill.1 hfill.2
      · exact ⟨h.toNowaitInv, hQ, .refl _⟩
  refine hlaunch.bind fun ⟨st₁, iter₁, numLocal, numRemote⟩ ⟨hinv₁, hQ₁, hsub₁⟩ => ?_
  have htests : Meets fails (fun st' => NowaitInv cfg limit sim queue st' ∧ Q st')
      (peerTests cfg sim (numRemote ≠ 0) (testLocal && numLocal ≠ 0) queue rep st₁ iter₁) := by
    have hreceives : Meets fails (fun r => NowaitInv cfg limit sim queue r.1 ∧ Q r.1 ∧
        r.2.Sublist queue.toList)
        (peerTests.receives sim (numRemote ≠ 0) queue rep st₁ iter₁) := by
      rw [peerTests.receives]
      split
      · obtain ⟨st', iter', n, hok, hinv', hrun⟩ := hinv₁.testReceives rep.arrived (hjob hsub₁)
          (IntMap.nodup_map_fst_toList.sublist (hsub₁.map _))
        rw [hok]
        exact ⟨hinv', hreceives _ _ _ _ _ hrun hQ₁, hrun.sublist.trans hsub₁⟩
      · exact ⟨hinv₁, hQ₁, hsub₁⟩
    refine hreceives.bind fun ⟨st₂, iter₂⟩ ⟨hinv₂, hQ₂, hsub₂⟩ => ?_
    simp only [peerTests.completions]
    split
    · rename_i htest
      obtain ⟨st', iter', n, hok, hinv', hreq⟩ := hinv₂.testLocal hlim rep.finished (hjob hsub₂)
      rw [hok]
      exact ⟨hinv', hlocal (by simp only [Bool.and_eq_true] at htest; exact htest.1) _ _ hreq hQ₂⟩
    · exact ⟨hinv₂, hQ₂⟩
  refine htests.bind fun st' ⟨hinv', hQ'⟩ => ?_
  rw [meets_pure, hinv'.releaseBuffers_eq]
  exact ⟨hinv', hQ'⟩

/-- The launch of a local share after the gaps are filled. -/
theorem GapInv.launchLocal (hlim : limit 0 = cfg.localLimit) {iter : PRPQueueIter J}
    {g : GapState J R} (h : GapInv cfg limit sim queue iter g) :
    NowaitInv cfg limit sim queue (assignAsynchLocalQueueNowait cfg g.localPrpQueue g.st).1 ∧
      (assignAsynchLocalQueueNowait cfg g.localPrpQueue g.st).1.recvRequests =
        g.st.recvRequests := by
  obtain ⟨st', iter', heq, hinv, hrun, -⟩ := h.inv.assignAsynchLocalQueueNowait (L := g.localPrpQueue)
    hlim fun p hp => by
      obtain ⟨hq, hs, -⟩ := h.localJob (IntMap.mem_toList.mp hp)
      exact ⟨hq, hs⟩
  rw [heq]
  exact ⟨hinv, hrun.requests⟩

/-- `peer_dynamic_schedule_evaluations_nowait` -/
theorem peerDynamicNowait_spec (hlim : limit 0 = cfg.localLimit)
    (h : CallInv cfg limit sim queue st) (hc : 1 ≤ cfg.asynchLocalEvalConcurrency)
    (hlimit : ∀ s ≠ 0, limit s = cfg.asynchLocalEvalConcurrency)
    (hbound : cfg.asynchLocalEvalConcurrency ≤ 65535 ∨ queue.size ≤ 65535)
    (hlay : Stratified cfg (cfg.numEvalServers - 1) st) :
    Meets (fun _ => False) (fun st' => NowaitInv cfg limit sim queue st' ∧
        Stratified cfg (cfg.numEvalServers - 1) st')
      (peerDynamicNowait cfg sim queue rep st) := by
  have hcap := Config.serverCapacity_eq hc
  refine peerNowait_spec hlim h hlay (fun _ _ _ _ _ hrun hl => hl.of_receives hrun)
    (fun _ _ _ hreq hl => by rw [Stratified, hreq]; exact hl) (fun hm ha => ?_) fun _ _ _ => ?_
  · -- First pass: the head of the queue is local, and the jobs after it are remote.
    rw [peerDynamicFirst]
    set numLocal := min cfg.serverCapacity (queue.size / cfg.numEvalServers)
    set numRemote := min cfg.remoteCapacity (queue.size - queue.size / cfg.numEvalServers)
    have hsubr : ((queue.toList.drop numLocal).take numRemote).Sublist queue.toList :=
      (List.take_sublist ..).trans (List.drop_sublist ..)
    obtain ⟨hinv₁, hlay₁, ha₁, hsame⟩ := h.stratifiedFirst (M := cfg.numEvalServers - 1) hc hlimit
      hm ha hsubr (by
        have : numRemote ≤ cfg.remoteCapacity := Nat.min_le_left ..
        rw [Config.remoteCapacity, hcap] at this
        rw [List.length_take]
        omega)
    have hnd := IntMap.nodup_map_fst_toList (m := queue)
    obtain ⟨st', iter', hok, hinv', hrun⟩ := hinv₁.assignAsynchLocalQueue hlim ha₁
      (L := Std.ExtTreeMap.ofList (queue.toList.take numLocal)) fun p hp => by
        have hmem := (IntMap.get?_ofList (hnd.sublist ((List.take_sublist ..).map _))).mp
          (IntMap.mem_toList.mp hp)
        have hq := IntMap.mem_toList.mp (List.mem_of_mem_take hmem)
        refine ⟨hq, (hsame p.1 fun hr => ?_).trans (h.pending hm ha (IntMap.mem_of_get? hq))⟩
        rw [← List.take_append_drop numLocal queue.toList, List.map_append, List.nodup_append] at hnd
        exact hnd.2.2 p.1 (List.mem_map_of_mem hmem) p.1
          ((List.take_sublist ..).map _ |>.subset hr) rfl
    simp only [hok, bind, Except.bind, meets_pure]
    refine ⟨hinv', ?_, (List.drop_sublist ..).trans (List.drop_sublist ..)⟩
    rw [Stratified, hrun.requests]
    exact hlay₁
  · rw [peerGaps]
    refine Meets.bind (fillGaps_spec (P := fun _ st => Stratified cfg (cfg.numEvalServers - 1) st)
      (fun _ _ _ hP => hP) (fun prp rest g hg hP hroom hq hp hnew => ?_) queue.toList
      (GapInv.start h.toNowaitInv h.notDone) hlay (fun p hp => IntMap.mem_toList.mp hp)
      IntMap.nodup_map_fst_toList) fun ⟨g, iter⟩ ⟨hg, hP, hsub⟩ => ?_
    · rw [peerDynamicAssign]
      simp only
      split
      · split
        · exact ⟨hg.insertLocal hq (.inl hp) hnew, hP⟩
        · exact ⟨hg.skip, hP⟩
      · split
        · rename_i hroom
          rw [Config.remoteCapacity, hcap] at hroom
          exact (hg.sendStratified hP hlimit hbound hroom hq hp).imp (fun _ => id)
            fun g' hg' => ⟨hg'.1, hg'.2.1⟩
        · exact ⟨hg.skip, hP⟩
    · obtain ⟨hinv', hreq⟩ := hg.launchLocal hlim
      simp only [meets_pure]
      split
      · refine ⟨hinv', ?_, hsub⟩
        rw [Stratified, hreq]
        exact hP
      · exact ⟨hg.inv, hP, hsub⟩

/-- A call fills gaps if some jobs are running, but not all, and there is capacity left. -/
def FillsGaps (cfg : Config) (queue : IntMap J) (st : State J R) : Prop :=
  let numRunning := st.msgPassRunningMap.size + st.asynchLocalActivePRPQueue.size
  numRunning ≠ 0 ∧ queue.size ≠ numRunning ∧ numRunning < cfg.numEvalServers * cfg.serverCapacity

/-- What the static schedule keeps besides `NowaitInv`. -/
structure StaticInv (cfg : Config) (st : State J R) : Prop where
  bound : ∀ (b : Nat) (r : Request J), st.recvRequests[b]? = some r → b < cfg.remoteCapacity
  synch : cfg.synchLocal = true → st.asynchLocalActivePRPQueue = ∅

/-- The first pass of `peer_static_schedule_evaluations_nowait`. -/
theorem CallInv.peerStaticFirst (hlim : limit 0 = cfg.localLimit)
    (h : CallInv cfg limit sim queue st) (hN : 2 ≤ cfg.numEvalServers) (hqueue : queue.size ≠ 0)
    (hlimit : ∀ s ≠ 0, limit s = ⊤) (hm : st.msgPassRunningMap = ∅)
    (ha : st.asynchLocalActivePRPQueue = ∅) {fails : Stop → Prop} :
    Meets fails (fun r => NowaitInv cfg limit sim queue r.1 ∧ StaticInv cfg r.1 ∧
      r.2.1.Sublist queue.toList) (peerStaticFirst cfg sim queue st) := by
  simp only [Sched.peerStaticFirst]
  set numLocal := min cfg.serverCapacity (queue.size / cfg.numEvalServers)
  set numRemote := min cfg.remoteCapacity (queue.size - queue.size / cfg.numEvalServers)
  set prps := queue.toList.take (numLocal + numRemote) with hprps
  split
  · rename_i hnil
    rw [← length_queue_toList, hnil] at hqueue
    exact absurd rfl hqueue
  rename_i evalId _ _ _
  have h₀ : CallInv cfg limit sim queue { st with nowaitEvalIdRef := evalId } :=
    ⟨⟨⟨⟨h.valid, h.locals, h.messages, h.results⟩, h.slots⟩, h.running, h.sized⟩, h.notDone⟩
  have hlen : prps.length ≤ cfg.numEvalServers * cfg.serverCapacity := by
    have hl : numLocal ≤ cfg.serverCapacity := Nat.min_le_left ..
    have hr : numRemote ≤ cfg.remoteCapacity := Nat.min_le_left ..
    rw [Config.remoteCapacity, Nat.sub_mul, Nat.one_mul] at hr
    have := Nat.mul_le_mul_right cfg.serverCapacity cfg.numEvalServers_pos
    rw [hprps, List.length_take]
    omega
  have hsend : Sendable _ _ queue { st with nowaitEvalIdRef := evalId } (robinPlan cfg prps 1 0) :=
    sendable_robinPlan hN (List.take_sublist (numLocal + numRemote) queue.toList)
      (fun id => h₀.pending hm ha) (h.requests_of_running hm) (length_robinPlan_le hlen)
  obtain ⟨hinv, hlay, hsame⟩ := h₀.sendPlan (h.requests_of_running hm)
    (fun s hs => by rw [hlimit s hs]; exact le_top) hsend
  have hactive := (sendPlan_same true (robinPlan cfg prps 1 0)
    { st with nowaitEvalIdRef := evalId }).active.trans ha
  have hL : ∀ p ∈ (robinLocal cfg prps 1 ∅).toList, queue[p.1]? = some p.2 ∧
      (sendPlan true (robinPlan cfg prps 1 0)
        { st with nowaitEvalIdRef := evalId }).status p.1 = .pending := by
    intro p hp
    have hnd := IntMap.nodup_map_fst_toList (m := queue)
    rcases robinLocal_sound (hnd.sublist ((List.take_sublist ..).map _)) (b := 0)
      (IntMap.mem_toList.mp hp) with h0 | ⟨hmem, hn⟩
    · simp at h0
    · have hq := IntMap.mem_toList.mp (List.mem_of_mem_take hmem)
      exact ⟨hq, (hsame _ hn).trans (h₀.pending hm ha (IntMap.mem_of_get? hq))⟩
  rw [roundRobin_eq]
  split
  · obtain ⟨hinv', hreq, hactive'⟩ := hinv.synchronousLocalEvaluations hlim hactive hL
    exact ⟨hinv', ⟨fun b r hr => (hlay b r (hreq ▸ hr)).1, fun _ => hactive'⟩, List.drop_sublist ..⟩
  · rename_i hsynch
    obtain ⟨st', iter, hok, hinv', hrun⟩ := hinv.assignAsynchLocalQueue hlim hactive hL
    refine Meets.bind (P := (· = (st', iter))) (meets_of_exists ⟨_, hok, rfl⟩) ?_
    rintro _ rfl
    exact ⟨hinv', ⟨fun b r hr => (hlay b r (hrun.requests ▸ hr)).1, fun hs => absurd hs hsynch⟩,
      List.drop_sublist ..⟩

/-- `peer_static_schedule_evaluations_nowait` -/
theorem peerStaticNowait_spec (hlim : limit 0 = cfg.localLimit)
    (h : CallInv cfg limit sim queue st) (hN : 2 ≤ cfg.numEvalServers)
    (hc : 1 ≤ cfg.asynchLocalEvalConcurrency) (hqueue : queue.size ≠ 0)
    (hlimit : ∀ s ≠ 0, limit s = ⊤) (hst : StaticInv cfg st)
    (hun : FillsGaps cfg queue st → Unclashed cfg cfg.remoteCapacity queue.toList st) :
    Meets (· = .noBufferIndex) (fun st' => NowaitInv cfg limit sim queue st' ∧ StaticInv cfg st')
      (peerStaticNowait cfg sim queue rep st) := by
  have hcap : cfg.remoteCapacity = (cfg.numEvalServers - 1) * cfg.asynchLocalEvalConcurrency := by
    rw [Config.remoteCapacity, Config.serverCapacity_eq hc]
  refine peerNowait_spec hlim h hst (fun st st' iter iter' n hrun hQ => ⟨fun b r' hb => ?_,
    fun hs => hrun.active.trans (hQ.synch hs)⟩) (fun htest st st' hreq hQ =>
      ⟨fun b r hb => hQ.bound b r (hreq ▸ hb), fun hs => by rw [hs] at htest; cases htest⟩)
    (fun hm ha => h.peerStaticFirst hlim hN hqueue hlimit hm ha) fun h₁ h₂ h₃ => ?_
  · obtain ⟨r, hr, -⟩ := hrun.buffer hb
    exact hQ.bound b r hr
  rw [peerGaps]
  refine Meets.bind (fillGaps_spec (P := fun rest st => Unclashed cfg cfg.remoteCapacity rest st ∧
      (cfg.synchLocal = true → st.asynchLocalActivePRPQueue = ∅))
    (fun prp rest st hP => ⟨⟨hP.1.bound, fun p hp => hP.1.own p (List.mem_cons_of_mem _ hp)⟩, hP.2⟩)
    (fun prp rest g hg hP _ hq hp hnew => ?_) queue.toList
    (GapInv.start h.toNowaitInv h.notDone) ⟨hun ⟨h₁, h₂, h₃⟩, hst.synch⟩
    (fun p hp => IntMap.mem_toList.mp hp) IntMap.nodup_map_fst_toList)
    fun ⟨g, iter⟩ ⟨hg, hP, hsub⟩ => ?_
  · have hrest : Unclashed cfg cfg.remoteCapacity rest g.st :=
      ⟨hP.1.bound, fun p hp => hP.1.own p (List.mem_cons_of_mem _ hp)⟩
    rw [peerStaticAssign]
    split
    · split
      · exact ⟨hg.insertLocal hq (.inl hp) hnew, hrest, hP.2⟩
      · exact ⟨hg.skip, hrest, hP.2⟩
    · rename_i hs
      split
      · rw [hcap] at hP ⊢
        exact (hg.sendStatic hs rfl hP.1 hlimit hq hp hnew).imp (fun _ => id)
          fun g' hg' => ⟨hg'.1, hg'.2.1, fun hs => hg'.2.2.trans (hP.2 hs)⟩
      · exact ⟨hg.skip, hrest, hP.2⟩
  · simp only [meets_pure]
    split
    · split
      · rename_i hs
        have hnone := hP.2 hs
        obtain ⟨hinv', hreq, hactive⟩ := hg.inv.synchronousLocalEvaluations (L := g.localPrpQueue)
          hlim hnone fun p hp => by
            obtain ⟨hq, hstat, -⟩ := hg.localJob (IntMap.mem_toList.mp hp)
            exact ⟨hq, hstat.resolve_right (hg.inv.active_eq_empty.mp hnone p.1)⟩
        exact ⟨hinv', ⟨fun b r hr => hP.1.bound b r (hreq ▸ hr), fun _ => hactive⟩, hsub⟩
      · rename_i hs
        obtain ⟨hinv', hreq⟩ := hg.launchLocal hlim
        exact ⟨hinv', ⟨fun b r hr => hP.1.bound b r (hreq ▸ hr), fun hs' => absurd hs' hs⟩, hsub⟩
    · exact ⟨hg.inv, ⟨hP.1.bound, hP.2⟩, hsub⟩

/-! ## Local -/

/-- `asynchronous_local_evaluations_nowait`, with no messages. -/
theorem asynchronousLocalNowait_spec (hlim : limit 0 = cfg.localLimit)
    (h : CallInv cfg limit sim queue st) (hm : st.msgPassRunningMap = ∅) {fails : Stop → Prop} :
    Meets fails (fun st' => NowaitInv cfg limit sim queue st' ∧ st'.recvRequests = ∅)
      (asynchronousLocalNowait cfg sim queue rep st) := by
  have hreq := h.requests_of_running hm
  have hstat : ∀ p ∈ queue.toList, queue[p.1]? = some p.2 ∧
      (st.status p.1 = .pending ∨ st.status p.1 = .running 0) := by
    intro p hp
    have hq := IntMap.mem_toList.mp hp
    refine ⟨hq, ?_⟩
    cases hs : st.status p.1 with
    | pending => exact .inl rfl
    | running s =>
      by_cases h0 : s = 0
      · exact .inr (by rw [h0])
      · have := h.mem_running_of_status h.running h0 hs
        simp [hm] at this
    | done => exact absurd hs (h.notDone _ (IntMap.mem_of_get? hq))
  have hlaunch : ∃ st₁ iter, localLaunch cfg queue st = (st₁, iter) ∧
      NowaitInv cfg limit sim queue st₁ ∧ st₁.recvRequests = ∅ ∧ iter.Sublist queue.toList := by
    simp only [localLaunch]
    generalize (if cfg.asynchLocalEvalConcurrency ≠ 0 then
      min cfg.asynchLocalEvalConcurrency queue.size else queue.size) = numTarget
    split
    · obtain ⟨st₁, iter, hass, hinv, hrun, hsub⟩ :=
        h.toNowaitInv.assignAsynchLocalQueueNowait hlim (L := queue) hstat
      exact ⟨st₁, iter, hass, hinv, hrun.requests.trans hreq, hsub⟩
    · exact ⟨st, _, rfl, h.toNowaitInv, hreq, .refl _⟩
  obtain ⟨st₁, iter, heq, hinv, hreq₁, hsub⟩ := hlaunch
  obtain ⟨st', iter', n, hok, hinv', hreq'⟩ := hinv.testLocal hlim rep.finished fun p hp =>
    IntMap.mem_toList.mp (hsub.subset hp)
  simp only [asynchronousLocalNowait, heq, hok, bind, Except.bind, meets_pure]
  exact ⟨hinv', hreq'.trans hreq₁⟩

end Dakota.Sched
