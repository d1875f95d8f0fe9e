import Dakota.Sched.NowaitInv

/-!
# Filling gaps

* `GapInv`: the state of a loop that fills gaps, with `rest` the jobs to come.
* `fillGaps_spec`: what an assignment of one job keeps, the loop keeps.
* `GapInv.sendStratified`: the assignment to the server of minimal load, with each buffer in the
  block of its server. `GapInv.sendStatic`: the assignment to a given server, if no other server
  has a buffer in its block.
-/

namespace Dakota.Sched

open Ledger Outcome

variable {J R : Type} {cfg : Config} {limit : Nat → ℕ∞} {sim : Nat × J → R} {queue L : IntMap J}
  {st st' : State J R} {iter rest : PRPQueueIter J} {g g' : GapState J R} {prp : Nat × J}

/-- The state of a loop that fills gaps. -/
structure GapInv (cfg : Config) (limit : Nat → ℕ∞) (sim : Nat × J → R) (queue : IntMap J)
    (rest : PRPQueueIter J) (g : GapState J R) : Prop where
  inv : NowaitInv cfg limit sim queue g.st
  jobs : Agrees g.serverJobs g.st.msgPassRunningMap
  remote : g.numRemoteRunning = g.st.msgPassRunningMap.size
  notDone : ∀ id ∈ queue, g.st.status id ≠ .done
  localJob : ∀ {id : Nat} {job : J}, g.localPrpQueue[id]? = some job → queue[id]? = some job ∧
    (g.st.status id = .pending ∨ g.st.status id = .running 0) ∧ id ∉ rest.map Prod.fst

/-- The start of a loop. -/
theorem GapInv.start (h : NowaitInv cfg limit sim queue st)
    (hopen : ∀ id ∈ queue, st.status id ≠ .done) {numLocal : Nat} :
    GapInv cfg limit sim queue rest
      { st, serverJobs := serverJobs st.msgPassRunningMap, numLocalRunning := numLocal
        numRemoteRunning := st.msgPassRunningMap.size } where
  inv := h
  jobs := .serverJobs fun id s b hr => by
    obtain ⟨job, hj⟩ := (h.running id s b).mp hr
    exact (h.messages.request hj).1
  remote := rfl
  notDone := hopen
  localJob := by simp

namespace GapInv

/-- A job that is neither in flight nor active is pending. -/
theorem pending (h : GapInv cfg limit sim queue iter g) {id : Nat} (hq : id ∈ queue)
    (hm : id ∉ g.st.msgPassRunningMap) (ha : id ∉ g.st.asynchLocalActivePRPQueue) :
    g.st.status id = .pending := by
  cases hst : g.st.status id with
  | pending => rfl
  | running s =>
    by_cases hs : s = 0
    · exact absurd (h.inv.mem_active.mpr (hs ▸ hst)) ha
    · exact absurd (h.inv.mem_running_of_status h.inv.running hs hst) hm
  | done => exact absurd hst (h.notDone id hq)

theorem skip (h : GapInv cfg limit sim queue (prp :: rest) g) : GapInv cfg limit sim queue rest g where
  inv := h.inv
  jobs := h.jobs
  remote := h.remote
  notDone := h.notDone
  localJob hj := by
    obtain ⟨hq, hs, hn⟩ := h.localJob hj
    exact ⟨hq, hs, fun hm => hn (List.mem_cons_of_mem _ hm)⟩

/-- A job joins the local queue. -/
theorem insertLocal (h : GapInv cfg limit sim queue (prp :: rest) g)
    (hq : queue[prp.1]? = some prp.2)
    (hp : g.st.status prp.1 = .pending ∨ g.st.status prp.1 = .running 0)
    (hnew : prp.1 ∉ rest.map Prod.fst) {numLocal : Nat} {backfill : Bool} :
    GapInv cfg limit sim queue rest { g with
      localPrpQueue := g.localPrpQueue.insert prp.1 prp.2
      numLocalRunning := numLocal, backfillLocal := backfill } where
  inv := h.inv
  jobs := h.jobs
  remote := h.remote
  notDone := h.notDone
  localJob {id job} hj := by
    rw [IntMap.get?_insert] at hj
    split at hj
    · rename_i he
      subst he
      cases hj
      exact ⟨hq, hp, hnew⟩
    · exact h.skip.localJob hj

/-- A job is sent. -/
theorem assignRemote (h : GapInv cfg limit sim queue (prp :: rest) g)
    (hq : queue[prp.1]? = some prp.2) (hp : g.st.status prp.1 = .pending) {s b : Nat} (hs : s ≠ 0)
    (hb : g.st.recvRequests[b]? = none) (hl : (load g.st.log s : ℕ∞) < limit s) :
    GapInv cfg limit sim queue rest { g with
      st := g.st.assignRemote true prp s b
      serverJobs := g.serverJobs.insert (s - 1) b
      numRemoteRunning := g.numRemoteRunning + 1 } := by
  have hnm : prp.1 ∉ g.st.msgPassRunningMap := by
    intro hm
    obtain ⟨s', -, hr⟩ := h.inv.status_of_mem_running h.inv.running hm
    cases hp.symm.trans hr
  have hstat {id : Nat} (hne : id ≠ prp.1) :
      (g.st.assignRemote true prp s b).status id = g.st.status id := by
    simp only [State.status, State.assignRemote_log]
    exact status_cons_of_ne hne
  refine ⟨h.inv.assignRemote hq hp hb hs hl, ?_, ?_, fun id hid => ?_, fun {id job} hj => ?_⟩
  · have := h.jobs.insert (i := s - 1) (b := b) hnm
    rwa [show s - 1 + 1 = s by omega] at this
  · simp only [State.assignRemote_running, IntMap.size_insert_of_notMem hnm, h.remote]
  · by_cases hid' : id = prp.1
    · subst hid'
      simp [State.status]
    · simp only
      rw [hstat hid']
      exact h.notDone id hid
  · obtain ⟨hqj, hsj, hn⟩ := h.localJob hj
    rw [List.map_cons, List.mem_cons, not_or] at hn
    simp only
    rw [hstat hn.1]
    exact ⟨hqj, hsj, hn.2⟩

end GapInv

/-- **The loop.** `P` is what an assignment needs and keeps besides `GapInv`. -/
theorem fillGaps_spec {fails : Stop → Prop} {P : PRPQueueIter J → State J R → Prop}
    {room : GapState J R → Bool} {assign : GapState J R → Nat × J → Except Stop (GapState J R)}
    (hskip : ∀ prp rest st, P (prp :: rest) st → P rest st)
    (hassign : ∀ prp rest g, GapInv cfg limit sim queue (prp :: rest) g → P (prp :: rest) g.st →
      room g = true → queue[prp.1]? = some prp.2 → g.st.status prp.1 = .pending →
      prp.1 ∉ rest.map Prod.fst → Meets fails
        (fun g' => GapInv cfg limit sim queue rest g' ∧ P rest g'.st) (assign g prp))
    (iter : PRPQueueIter J) (h : GapInv cfg limit sim queue iter g) (hP : P iter g.st)
    (hjob : ∀ p ∈ iter, queue[p.1]? = some p.2) (hnodup : (iter.map Prod.fst).Nodup) :
    Meets fails (fun r => GapInv cfg limit sim queue r.2 r.1 ∧ P r.2 r.1.st ∧ r.2.Sublist iter)
      (fillGaps room assign iter g) := by
  induction iter generalizing g with
  | nil => exact ⟨h, hP, .refl _⟩
  | cons prp rest ih =>
    rw [List.map_cons, List.nodup_cons] at hnodup
    have hq := hjob prp List.mem_cons_self
    have hrest {g : GapState J R} (h : GapInv cfg limit sim queue rest g) (hP : P rest g.st) :
        Meets fails (fun r => GapInv cfg limit sim queue r.2 r.1 ∧ P r.2 r.1.st ∧
          r.2.Sublist (prp :: rest)) (fillGaps room assign rest g) :=
      (ih h hP (fun p hp => hjob p (List.mem_cons_of_mem _ hp)) hnodup.2).imp (fun _ => id)
        fun r hr => ⟨hr.1, hr.2.1, hr.2.2.cons _⟩
    rw [fillGaps]
    split
    · rename_i hroom
      split
      · exact hrest h.skip (hskip _ _ _ hP)
      · rename_i hm
        split
        · rename_i ha
          exact hrest (h.insertLocal hq (.inr (h.inv.mem_active.mp ha)) hnodup.1) (hskip _ _ _ hP)
        · rename_i ha
          refine (hassign prp rest g h hP hroom hq (h.pending (IntMap.mem_of_get? hq) hm ha)
            hnodup.1).bind fun g' hg' => hrest hg'.1 hg'.2
    · exact ⟨h, hP, .refl _⟩

/-! ## Assignments -/

/-- The block of buffers of a server. -/
theorem div_eq_of_mem_block {c i b : Nat} (h : i * c ≤ b ∧ b < i * c + c) : b / c = i := by
  have hc : 0 < c := by omega
  rw [Nat.div_eq_iff hc]
  omega

/-- A buffer that the search finds is free, if no other server has a buffer in the block. -/
theorem GapInv.free (h : GapInv cfg limit sim queue iter g) {c s b : Nat} (hs : s ≠ 0)
    (hown : ∀ (b : Nat) (r : Request J), g.st.recvRequests[b]? = some r → b / c + 1 = s →
      r.server = s)
    (hb : availableBuffer (g.serverJobs (s - 1)) ((s - 1) * c) c = some b) :
    g.st.recvRequests[b]? = none ∧ b / c + 1 = s := by
  obtain ⟨hblock, hbusy⟩ := availableBuffer_eq_some hb
  have hdiv : b / c + 1 = s := by
    rw [div_eq_of_mem_block hblock]
    omega
  refine ⟨?_, hdiv⟩
  by_contra hne
  obtain ⟨r, hr⟩ := Option.ne_none_iff_exists'.mp hne
  have hserver := hown b r hr hdiv
  refine hbusy ((h.jobs (s - 1) (ushort b)).mpr ⟨r.evalId, b, (h.inv.running _ _ _).mpr
    ⟨r.job, ?_⟩, rfl⟩)
  rw [hr, show s - 1 + 1 = r.server by omega]

/-- The running jobs are in the queue. -/
theorem NowaitInv.size_running_le (h : NowaitInv cfg limit sim queue st) :
    st.msgPassRunningMap.size ≤ queue.size := by
  rw [← IntMap.card_ids, ← IntMap.card_ids]
  refine Finset.card_le_card fun id hid => ?_
  rw [IntMap.mem_ids] at hid ⊢
  obtain ⟨s, -, hr⟩ := h.status_of_mem_running h.running hid
  exact h.mem_queue hr

/-- The layout of the dynamic schedulers: each of `M` servers has a block of buffers. -/
abbrev Stratified (cfg : Config) (M : Nat) (st : State J R) : Prop :=
  Layout (· / cfg.asynchLocalEvalConcurrency + 1) (M * cfg.asynchLocalEvalConcurrency)
    st.recvRequests

/-- The assignment to the server of minimal load, while not all are full. -/
theorem GapInv.sendStratified {M : Nat} (h : GapInv cfg limit sim queue (prp :: rest) g)
    (hlay : Stratified cfg M g.st)
    (hlimit : ∀ s ≠ 0, limit s = cfg.asynchLocalEvalConcurrency)
    (hbound : cfg.asynchLocalEvalConcurrency ≤ 65535 ∨ queue.size ≤ 65535)
    (hroom : g.numRemoteRunning < M * cfg.asynchLocalEvalConcurrency)
    (hq : queue[prp.1]? = some prp.2) (hp : g.st.status prp.1 = .pending) :
    Meets (fun _ => False) (fun g' => GapInv cfg limit sim queue rest g' ∧
        Stratified cfg M g'.st ∧
        g'.st.asynchLocalActivePRPQueue = g.st.asynchLocalActivePRPQueue)
      (g.send cfg prp ((minLoad g.serverJobs M).1 + 1)) := by
  have hM : 0 < M := Nat.pos_of_ne_zero (by rintro rfl; simp at hroom)
  have hc : 0 < cfg.asynchLocalEvalConcurrency :=
    Nat.pos_of_ne_zero fun hc => by simp [hc] at hroom
  obtain ⟨hi, -, -⟩ := minLoad_spec g.serverJobs hM
  have havail := stratified_available h.jobs h.inv.toInv h.inv.running hlimit
    (by rwa [← h.remote]) (hbound.imp_right h.inv.size_running_le.trans)
  set i := (minLoad g.serverJobs M).1
  obtain ⟨b, hb⟩ := Option.ne_none_iff_exists'.mp havail
  obtain ⟨hfree, hdiv⟩ := h.free (s := i + 1) (by omega)
    (fun b r hr hs => (hlay b r hr).2.trans hs) hb
  have hlt : b < M * cfg.asynchLocalEvalConcurrency := by
    obtain ⟨⟨-, hlt⟩, -⟩ := availableBuffer_eq_some hb
    have := Nat.mul_le_mul_right cfg.asynchLocalEvalConcurrency hi
    rw [Nat.succ_mul] at this
    omega
  have hload : (load g.st.log (i + 1) : ℕ∞) < limit (i + 1) := by
    have hlt' := h.inv.load_lt hlay hfree hlt (by omega)
    rw [hdiv] at hlt'
    rw [hlimit _ i.add_one_ne_zero]
    exact_mod_cast hlt'.trans_le (card_slots_div hc _)
  simp only [GapState.send, Nat.add_sub_cancel, hb, meets_ok]
  refine ⟨h.assignRemote hq hp i.add_one_ne_zero hfree hload, ?_, State.assignRemote_active⟩
  rw [Stratified, State.assignRemote_requests]
  exact hlay.insert hlt hdiv.symm

/-- The buffers of the static schedule are within its `n` ones, and no job of another server has
one in the block of a server that `rest` is for. -/
structure Unclashed (cfg : Config) (n : Nat) (rest : PRPQueueIter J) (st : State J R) : Prop where
  bound : ∀ (b : Nat) (r : Request J), st.recvRequests[b]? = some r → b < n
  own : ∀ p ∈ rest, st.status p.1 = .pending → ∀ (b : Nat) (r : Request J),
    st.recvRequests[b]? = some r →
    b / cfg.asynchLocalEvalConcurrency + 1 = staticServerId cfg st.nowaitEvalIdRef p.1 →
    r.server = staticServerId cfg st.nowaitEvalIdRef p.1

/-- The assignment to the static server of a job. -/
theorem GapInv.sendStatic {s : Nat} (h : GapInv cfg limit sim queue (prp :: rest) g)
    (hs : s ≠ 0) (heq : staticServerId cfg g.st.nowaitEvalIdRef prp.1 = s)
    (hun : Unclashed cfg ((cfg.numEvalServers - 1) * cfg.asynchLocalEvalConcurrency) (prp :: rest)
      g.st)
    (hlimit : ∀ s ≠ 0, limit s = ⊤) (hq : queue[prp.1]? = some prp.2)
    (hp : g.st.status prp.1 = .pending) (hnew : prp.1 ∉ rest.map Prod.fst) :
    Meets (· = .noBufferIndex) (fun g' => GapInv cfg limit sim queue rest g' ∧
        Unclashed cfg ((cfg.numEvalServers - 1) * cfg.asynchLocalEvalConcurrency) rest g'.st ∧
        g'.st.asynchLocalActivePRPQueue = g.st.asynchLocalActivePRPQueue)
      (g.send cfg prp s) := by
  rw [GapState.send]
  split
  · rfl
  · rename_i b hb
    obtain ⟨hfree, hdiv⟩ := h.free hs (fun b r hr hdiv => by
      rw [← heq] at hdiv ⊢
      exact hun.own prp List.mem_cons_self hp b r hr hdiv) hb
    have hlt : b < (cfg.numEvalServers - 1) * cfg.asynchLocalEvalConcurrency := by
      obtain ⟨⟨-, hlt⟩, -⟩ := availableBuffer_eq_some hb
      have hsN : s ≤ cfg.numEvalServers - 1 := by
        have := Nat.mod_lt (prp.1 - g.st.nowaitEvalIdRef + 1) cfg.numEvalServers_pos
        rw [staticServerId] at heq
        omega
      have := Nat.mul_le_mul_right cfg.asynchLocalEvalConcurrency hsN
      obtain ⟨k, rfl⟩ : ∃ k, s = k + 1 := ⟨s - 1, by omega⟩
      rw [Nat.succ_mul] at this
      rw [Nat.add_sub_cancel] at hlt
      omega
    refine ⟨h.assignRemote hq hp hs hfree ?_, ⟨fun b' r hr => ?_, fun p hpr hpp b' r hr hd => ?_⟩,
      State.assignRemote_active⟩
    · rw [hlimit s hs]
      exact ENat.natCast_lt_top _
    · simp only [State.assignRemote_requests, IntMap.get?_insert] at hr
      split at hr
      · rename_i he
        exact he ▸ hlt
      · exact hun.bound b' r hr
    · have href : (g.st.assignRemote true prp s b).nowaitEvalIdRef = g.st.nowaitEvalIdRef := rfl
      simp only [href] at hd ⊢
      simp only [State.assignRemote_requests, IntMap.get?_insert] at hr
      split at hr
      · rename_i he
        subst he
        cases hr
        exact hdiv.symm.trans hd
      · refine hun.own p (List.mem_cons_of_mem _ hpr) ?_ b' r hr hd
        have hne : p.1 ≠ prp.1 := fun he => hnew (he ▸ List.mem_map_of_mem hpr)
        simp only [State.status, State.assignRemote_log] at hpp
        exact (status_cons_of_ne hne).symm.trans hpp

end Dakota.Sched
