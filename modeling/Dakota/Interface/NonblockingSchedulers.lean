import Dakota.Interface.NonblockingRuns

/-!
# Nonblocking runs of each scheduler

* `asynchronousLocal_exactlyOnce`: runs of an interface that evaluates locally.
* `masterDynamic_exactlyOnce`, `peerDynamic_exactlyOnce`: runs of the dynamic schedulers, with the
  buffers of each server in its own block, and no search for a buffer that fails.
* `peerStatic_exactlyOnce`: runs of the static scheduler whose calls fill no gap that clashes.
-/

namespace Dakota

open Sched Ledger Outcome

variable {J R : Type} {setup : InterfaceSetup J R} {limit : Nat → ℕ∞}
  {contract : NowaitContract setup.cfg limit setup.sim} {answers : Answers setup}
  {run run' : Run J R} {dataPairs : List (CacheRecord J R)} {calls : List (InterfaceCall J R)}

/-- What a run of an interface has done, whatever the order of its calls and of the completions. -/
structure ExactlyOnce (limit : Nat → ℕ∞) (answers : Answers setup) (run : Run J R) : Prop where
  /-- Each evaluation that was issued is in one place, and no other is anywhere. -/
  once : ∀ id, run.places id = if 1 ≤ id ∧ id ≤ run.iface.evalIdCntr then 1 else 0
  /-- An evaluation that has left the queue was launched once, unless it is a duplicate. -/
  launched : ∀ id, launches run.iface.sched.log id ≤ 1 ∧
    (id ∉ run.iface.beforeSynchCorePRPQueue →
      launches run.iface.sched.log id = if id ∈ run.evaluated then 1 else 0)
  /-- No server was ever above its limit. -/
  throttled : ∀ log, log <:+ run.iface.sched.log → ∀ s, (load log s : ℕ∞) ≤ limit s
  active : (run.iface.sched.asynchLocalActivePRPQueue.size : ℕ∞) ≤ limit 0
  /-- A duplicate waits for an evaluation in the queue. -/
  waiting : ∀ {id queueId : Nat} {target : R},
    run.iface.beforeSynchDuplicateMap[id]? = some (queueId, target) →
      queueId ∈ run.iface.beforeSynchCorePRPQueue
  answered : ∀ {id : Nat} {r : R}, run.HasResponse id r →
    ∃ asked, run.issued[id]? = some asked ∧ answers.Valid asked r

/-- What a synchronization returns: each duplicate with the evaluation that it duplicates, and all
that was cached. -/
structure Synchronized (run run' : Run J R) : Prop where
  together : ∀ {id queueId : Nat} {target : R},
    run.iface.beforeSynchDuplicateMap[id]? = some (queueId, target) →
      (id ∈ run'.iface.sched.rawResponseMap ↔ queueId ∈ run'.iface.sched.rawResponseMap)
  history : run'.iface.historyDuplicateMap = ∅
  cached : run'.iface.cachedResponseMap = ∅
  /-- With the queue empty, the caller has all that was issued. -/
  all : run'.iface.beforeSynchCorePRPQueue = ∅ → ∀ id, 1 ≤ id → id ≤ run'.iface.evalIdCntr →
    id ∈ run'.iface.sched.rawResponseMap ∨ id ∈ run'.kept.map Prod.fst

theorem RunInv.exactlyOnce (h : RunInv contract answers run) : ExactlyOnce limit answers run where
  once := h.places
  launched id := by
    rw [(show Valid limit run.iface.sched.log from h.sched.valid).launches_eq]
    refine ⟨by split <;> omega, fun hq => ?_⟩
    by_cases he : id ∈ run.evaluated
    · have hdone := (h.evaluated id he).2.resolve_left hq
      rw [if_neg (by rw [show status _ id = _ from hdone]; simp), if_pos he]
    · rw [if_pos (h.unevaluated id he), if_neg he]
  throttled log hlog s := (h.sched.valid.of_suffix hlog).load_le s
  active := by
    have := h.sched.valid.load_le 0
    rwa [h.sched.load_zero] at this
  waiting hd := by
    obtain ⟨asked, job, -, hj, -⟩ := h.duplicates hd
    exact IntMap.mem_of_get? hj
  answered := h.responses

/-- With nothing in the queue or cached, the caller has all that was issued. -/
theorem RunInv.returned_or_kept (h : RunInv contract answers run) {id : Nat}
    (hqueue : run.iface.beforeSynchCorePRPQueue = ∅)
    (hhistory : run.iface.historyDuplicateMap = ∅) (hcached : run.iface.cachedResponseMap = ∅)
    (hid : 1 ≤ id ∧ id ≤ run.iface.evalIdCntr) :
    id ∈ run.iface.sched.rawResponseMap ∨ id ∈ run.kept.map Prod.fst := by
  have hdups : id ∉ run.iface.beforeSynchDuplicateMap := by
    intro hm
    obtain ⟨⟨queueId, target⟩, hget⟩ := IntMap.mem_iff.mp hm
    obtain ⟨-, job, -, hj, -⟩ := h.duplicates hget
    rw [hqueue, IntMap.get?_empty] at hj
    cases hj
  have hp := h.places id
  by_contra hnot
  rw [not_or] at hnot
  rw [if_pos hid, Run.places, hqueue, hhistory, hcached, Run.held_empty, Run.held_empty,
    Run.held_of_notMem hdups, Run.held_of_notMem hnot.1, List.count_eq_zero_of_not_mem hnot.2] at hp
  omega

/-- The parts of a synchronization that returns. -/
theorem RunInv.of_synchronizeNowait {rep : Report} (h : RunInv contract answers run)
    (hfit : contract.Fits run.iface.beforeSynchCorePRPQueue run.iface.idle)
    (hstep : run.step setup (.synchronizeNowait rep) = .ok run') :
    ∃ sched dataPairs raw dups, Scheduled contract answers run.iface sched dataPairs ∧
      Duplicated setup run.iface.beforeSynchDuplicateMap.toList sched.rawResponseMap
        run.iface.beforeSynchDuplicateMap (raw, dups) ∧
      run.iface.schedule setup rep = .ok { run.iface with sched, dataPairs } ∧
      run' = { run with
        iface := Interface.cleanUp (Interface.processCached { run.iface with
          dataPairs
          sched := { sched with rawResponseMap := raw }
          beforeSynchDuplicateMap := dups })
        kept := run.iface.sched.rawResponseMap.toList ++ run.kept } := by
  rw [Run.step, Interface.synchronizeNowait] at hstep
  obtain ⟨iface, hcall, hret⟩ := bind_eq_ok.mp hstep
  cases hret
  obtain ⟨iface₁, hok₁, hcall⟩ := bind_eq_ok.mp hcall
  obtain ⟨sched, pairs, rfl, hs⟩ := (h.schedule hfit).of_ok hok₁
  obtain ⟨iface₂, hok₂, hcall⟩ := bind_eq_ok.mp hcall
  obtain ⟨raw, dups, rfl, hd⟩ := (h.processDuplicates hs).of_ok hok₂
  cases hcall
  exact ⟨sched, pairs, raw, dups, hs, hd, hok₁, rfl⟩

/-- A synchronization, from a state with the invariant. -/
theorem RunInv.synchronized {rep : Report} (h : RunInv contract answers run)
    (hfit : contract.Fits run.iface.beforeSynchCorePRPQueue run.iface.idle)
    (hstep : run.step setup (.synchronizeNowait rep) = .ok run') : Synchronized run run' := by
  have h' := (h.synchronizeNowait hfit).of_ok hstep
  obtain ⟨sched, pairs, raw, dups, hs, hd, -, rfl⟩ := h.of_synchronizeNowait hfit hstep
  refine ⟨fun {id queueId target} hdup => ?_, rfl, rfl, fun hqueue id h₁ h₂ => ?_⟩
  · obtain ⟨asked, job, -, hj, -⟩ := h.duplicates hdup
    have hq := IntMap.mem_of_get? hj
    refine (h.mem_returned hs hd _).trans (Iff.trans ?_ (h.mem_returned_of_queue hs hd hq).symm)
    have hnq := (h.not_of_duplicate (IntMap.mem_of_get? hdup))
    have hraw : queueId ∈ sched.rawResponseMap ↔ _ := hs.mem_raw
    rw [and_iff_right hq] at hraw
    rw [← hraw]
    constructor
    · rintro (hm | ⟨q, t, hget, hm⟩ | hm | hm)
      · exact absurd (IntMap.mem_of_get? hdup) (h.not_of_queue (hs.mem_raw.mp hm).1).1
      · cases hdup.symm.trans hget
        exact hm
      · exact absurd hm hnq.2
      · exact absurd hm hnq.1
    · exact fun hm => .inr (.inl ⟨queueId, target, hdup, hm⟩)
  · exact h'.returned_or_kept hqueue rfl rfl ⟨h₁, h₂⟩

variable (contract answers) in
/-- The runs of an interface, and what a synchronization after them does. -/
theorem RunInv.exactlyOnce_of_run
    (hpairs : ∀ record ∈ dataPairs, answers.Valid record.job record.response)
    (hcalls : Admitted (Run.step setup) (InterfaceCall.Allowed contract answers)
      (.initial dataPairs) calls) :
    Meets (fun e => ∃ stop, contract.fails stop ∧ e = .scheduler stop)
      (fun run => ExactlyOnce limit answers run ∧ contract.Inv run.iface.idle ∧
        (contract.Fits run.iface.beforeSynchCorePRPQueue run.iface.idle → ∀ rep run',
          run.step setup (.synchronizeNowait rep) = .ok run' → Synchronized run run'))
      (calls.foldlM (Run.step setup) (.initial dataPairs)) :=
  (RunInv.of_run contract answers hpairs hcalls).imp (fun _ => id) fun _ h =>
    ⟨h.exactlyOnce, h.keeps, fun hfit _ _ hstep => h.synchronized hfit hstep⟩

/-- The limits of local "servers", and of remote ones. -/
noncomputable def Sched.Config.nowaitLimit (cfg : Config) (remote : ℕ∞) (server : Nat) : ℕ∞ :=
  if server = 0 then cfg.localLimit else remote

section Contracts

variable {cfg : Config} {sim : Nat × J → R}

theorem Sched.Config.nowaitLimit_remote {remote : ℕ∞} {s : Nat} (h : s ≠ 0) :
    cfg.nowaitLimit remote s = remote := if_neg h

/-! ## Local evaluations -/

theorem Sched.Running.eq_empty {running : IntMap (Nat × Nat)}
    (h : Running running (∅ : IntMap (Request J))) : running = ∅ := by
  rw [Std.ExtTreeMap.eq_empty_iff_forall_not_mem]
  intro id hid
  obtain ⟨⟨s, b⟩, hr⟩ := IntMap.mem_iff.mp hid
  obtain ⟨job, hj⟩ := (h id s b).mp hr
  rw [IntMap.get?_empty] at hj
  cases hj

/-- `asynchronous_local_evaluations_nowait` -/
noncomputable def localContract (hlocal : cfg.ieMessagePass = false) :
    NowaitContract cfg (cfg.nowaitLimit 0) sim where
  Inv st := st.msgPassRunningMap = ∅
  Fits _ _ := True
  fails _ := False
  init := rfl
  cleared := id
  call := by
    intro queue rep st _ h hm _
    rw [nowaitScheduler, hlocal, if_neg (by simp)]
    refine (asynchronousLocalNowait_spec rfl h hm).imp (fun _ => id) fun st' ⟨hinv, hreq⟩ => ?_
    exact ⟨hinv, (hreq ▸ hinv.running : Running st'.msgPassRunningMap ∅).eq_empty⟩

/-! ## Dynamic schedulers -/

/-- The capacities fit `unsigned short`s. -/
def FitsUShort (cfg : Config) (queue : IntMap J) : Prop :=
  cfg.asynchLocalEvalConcurrency ≤ 65535 ∨ queue.size ≤ 65535

/-- `master_dynamic_schedule_evaluations_nowait` -/
noncomputable def masterContract (hmsg : cfg.ieMessagePass = true)
    (hmaster : cfg.ieDedMasterFlag = true) (hc : 1 ≤ cfg.asynchLocalEvalConcurrency) :
    NowaitContract cfg (cfg.nowaitLimit cfg.asynchLocalEvalConcurrency) sim where
  Inv st := Stratified cfg cfg.numEvalServers st ∧ st.asynchLocalActivePRPQueue = ∅
  Fits queue _ := FitsUShort cfg queue
  fails _ := False
  init := ⟨fun _ _ hb => by simp at hb, rfl⟩
  cleared := id
  call := by
    intro queue rep st _ h hinv hfit
    rw [nowaitScheduler, hmsg, hmaster, if_pos rfl, if_pos rfl]
    exact masterDynamicNowait_spec h hc (fun s => Config.nowaitLimit_remote) hfit hinv.1 hinv.2

/-- `peer_dynamic_schedule_evaluations_nowait` -/
noncomputable def peerDynamicContract (hmsg : cfg.ieMessagePass = true)
    (hmaster : cfg.ieDedMasterFlag = false) (hpeer : cfg.peerStatic = false)
    (hc : 1 ≤ cfg.asynchLocalEvalConcurrency) :
    NowaitContract cfg (cfg.nowaitLimit cfg.asynchLocalEvalConcurrency) sim where
  Inv st := Stratified cfg (cfg.numEvalServers - 1) st
  Fits queue _ := FitsUShort cfg queue
  fails _ := False
  init := fun _ _ hb => by simp at hb
  cleared := id
  call := by
    intro queue rep st _ h hinv hfit
    rw [nowaitScheduler, hmsg, hmaster, hpeer, if_pos rfl, if_neg (by simp), if_neg (by simp)]
    exact peerDynamicNowait_spec rfl h hc (fun s => Config.nowaitLimit_remote) hfit hinv

/-! ## The static scheduler -/

/-- `peer_static_schedule_evaluations_nowait`, with calls that fill no gap that clashes. -/
noncomputable def peerStaticContract (hmsg : cfg.ieMessagePass = true)
    (hmaster : cfg.ieDedMasterFlag = false) (hpeer : cfg.peerStatic = true)
    (hN : 2 ≤ cfg.numEvalServers) (hc : 1 ≤ cfg.asynchLocalEvalConcurrency) :
    NowaitContract cfg (cfg.nowaitLimit ⊤) sim where
  Inv st := StaticInv cfg st
  Fits queue st := FillsGaps cfg queue st → Unclashed cfg cfg.remoteCapacity queue.toList st
  fails stop := stop = .noBufferIndex
  init := ⟨fun _ _ hb => by simp at hb, fun _ => rfl⟩
  cleared h := ⟨h.bound, h.synch⟩
  call := by
    intro queue rep st hsize h hinv hfit
    rw [nowaitScheduler, hmsg, hmaster, hpeer, if_pos rfl, if_neg (by simp), if_pos rfl]
    exact peerStaticNowait_spec rfl h hN hc hsize (fun s => Config.nowaitLimit_remote) hinv hfit

end Contracts

/-! ## Runs -/

/-- The jobs in flight have buffers of their own, and none of them is active on this peer. -/
structure SeparateBuffers (st : State J R) : Prop where
  distinct : ∀ {id id' s s' b : Nat}, st.msgPassRunningMap[id]? = some (s, b) →
    st.msgPassRunningMap[id']? = some (s', b) → id = id'
  /-- The buffer of a job waits for its response. -/
  own : ∀ {id s b : Nat}, st.msgPassRunningMap[id]? = some (s, b) →
    ∃ job, st.recvRequests[b]? = some ⟨s, id, job⟩
  remote : ∀ id ∈ st.msgPassRunningMap, id ∉ st.asynchLocalActivePRPQueue

theorem RunInv.separateBuffers (h : RunInv contract answers run) :
    SeparateBuffers run.iface.sched where
  distinct hid hid' := by
    obtain ⟨job, hj⟩ := (h.sched.running _ _ _).mp hid
    obtain ⟨job', hj'⟩ := (h.sched.running _ _ _).mp hid'
    cases hj.symm.trans hj'
    rfl
  own hid := (h.sched.running _ _ _).mp hid
  remote id hid hactive := by
    obtain ⟨⟨s, b⟩, hr⟩ := IntMap.mem_iff.mp hid
    obtain ⟨job, hj⟩ := (h.sched.running _ _ _).mp hr
    obtain ⟨hs, -, hstat⟩ := h.sched.messages.request hj
    have hzero := h.sched.mem_active.mp hactive
    exact hs (Status.running.inj (hstat.symm.trans hzero))

/-- Each job in flight on server `s` has a buffer of the block of `s`. -/
def BlockOfServer (cfg : Config) (st : State J R) : Prop :=
  ∀ {id s b : Nat}, st.msgPassRunningMap[id]? = some (s, b) →
    (s - 1) * cfg.asynchLocalEvalConcurrency ≤ b ∧ b < s * cfg.asynchLocalEvalConcurrency

theorem RunInv.blockOfServer (h : RunInv contract answers run)
    (hc : 1 ≤ setup.cfg.asynchLocalEvalConcurrency) {M : Nat}
    (hlay : Stratified setup.cfg M run.iface.idle) : BlockOfServer setup.cfg run.iface.sched := by
  intro id s b hid
  obtain ⟨job, hj⟩ := (h.sched.running _ _ _).mp hid
  obtain ⟨-, hserver⟩ := hlay b _ hj
  have hserver : s = b / setup.cfg.asynchLocalEvalConcurrency + 1 := hserver
  rw [hserver, Nat.add_sub_cancel]
  exact ⟨Nat.div_mul_le_self .., Nat.lt_mul_of_div_lt (Nat.lt_succ_self _) hc⟩

/-- The responses that come with the calls are prepared for their jobs. -/
def Targets (answers : Answers setup) (calls : List (InterfaceCall J R)) : Prop :=
  ∀ job response, .map job response ∈ calls → answers.Target job response

theorem Targets.allowed (h : Targets answers calls)
    (hfits : ∀ queue st, contract.Fits queue st) {dataPairs : List (CacheRecord J R)} :
    Admitted (Run.step setup) (InterfaceCall.Allowed contract answers) (.initial dataPairs) calls :=
  .of_forall fun call hcall run => by
    cases call with
    | map job response => exact h job response hcall
    | synchronizeNowait rep => exact hfits _ _
    | cacheUnmatchedResponse rawId => trivial
    | cacheUnmatchedResponses => trivial

/-! ## An interface of numbers -/

/-- The evaluation of `n` gives `n + 1`. A search finds the first evaluation of the same number. -/
def successorSetup (cfg : Config) : InterfaceSetup Nat Nat where
  cfg
  sim p := p.2 + 1
  evalCacheFlag := true
  search := {
    Matches := Eq
    lookupCache := fun pairs job => pairs.findIdx? (·.job = job)
    lookupQueue := fun queue job => (queue.toList.find? (·.2 = job)).map Prod.fst
    cache_sound := by
      intro pairs job i hi
      obtain ⟨hlt, heq, -⟩ := List.findIdx?_eq_some_iff_getElem.mp hi
      exact ⟨pairs[i], List.getElem?_eq_getElem hlt, (of_decide_eq_true heq).symm⟩
    queue_sound := by
      intro queue job id hid
      obtain ⟨p, hp, rfl⟩ := Option.map_eq_some_iff.mp hid
      exact ⟨p.2, IntMap.mem_toList.mp (List.mem_of_find?_eq_some hp),
        (of_decide_eq_true (List.find?_some hp : _)).symm⟩ }
  update _ source := some source
  queuedJob := id

def successorAnswers (cfg : Config) : Answers (successorSetup cfg) where
  Valid job r := r = job + 1
  Target _ _ := True
  sim _ _ := rfl
  sim_queued _ _ := rfl
  update := by
    rintro job _ target _ rfl - rfl
    exact ⟨_, rfl, rfl⟩

/-- Two evaluations of 4, the second one before and after the first one is complete. -/
def successorCalls : List (InterfaceCall Nat Nat) :=
  [.map 4 0, .map 4 0, .synchronizeNowait { arrived := [0], finished := [1] },
    .cacheUnmatchedResponse 1, .map 4 0, .synchronizeNowait {}]

theorem successor_targets (cfg : Config) : Targets (successorAnswers cfg) successorCalls :=
  fun _ _ _ => trivial

/-! ## Results -/

/-- The calls of a static schedule fill gaps only where no other server has a buffer in the block
of the gap. -/
def FillsUnclashed (setup : InterfaceSetup J R) (run : Run J R) : InterfaceCall J R → Prop
  | .synchronizeNowait _ =>
    FillsGaps setup.cfg run.iface.beforeSynchCorePRPQueue run.iface.idle →
      Unclashed setup.cfg setup.cfg.remoteCapacity run.iface.beforeSynchCorePRPQueue.toList
        run.iface.idle
  | _ => True

/-- `map` leaves the schedulers alone. -/
theorem Run.sched_map {job : J} {response : R}
    (h : run.step setup (.map job response) = .ok run') : run'.iface.sched = run.iface.sched := by
  rw [Run.step, Interface.map] at h
  obtain ⟨iface, hiface, hret⟩ := bind_eq_ok.mp h
  cases hret
  split at hiface
  · obtain ⟨duplicate, hdup, hret⟩ := bind_eq_ok.mp hiface
    cases hret
    rw [Interface.duplicationDetect] at hdup
    split at hdup
    · obtain ⟨r, -, hret⟩ := bind_eq_ok.mp hdup
      cases hret
      show (Interface.promote _ _ _).sched = _
      rw [Interface.promote]
      split <;> rfl
    · split at hdup <;> cases hdup <;> rfl
  · cases hiface
    rfl

end Dakota
